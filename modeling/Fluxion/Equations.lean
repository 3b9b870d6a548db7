import Fluxion.Difference
import Fluxion.Expr.Derivative
import Fluxion.Settings
import Fluxion.Statement
import Fluxion.System

/-!
# Systems of equations

Equations over named variables with their partial derivatives, given as expressions or as texts.
-/

set_option autoImplicit false

namespace Fluxion

/-! ## Errors of systems of equations

Why a list of equations is no system, and why partial derivatives cannot be attached to one.
-/

/-- Why a statement is no equation of a system. -/
inductive EquationFault where
  | notAnAssignment
  /-- It assigns a derivative of higher order. -/
  | notFirstOrder
  | notADerivative
  | markerOnRight
deriving DecidableEq, Repr

/-- The words for a fault. -/
def EquationFault.message : EquationFault → String
  | .notAnAssignment => "expected an equation of the form x' = expression"
  | .notFirstOrder => "only first-order derivatives are supported"
  | .notADerivative => "left-hand side must be a derivative such as x'"
  | .markerOnRight => "derivative markers are only allowed on the left-hand side"

/-- Why a system cannot be built. -/
inductive EquationsError (α : Type) where
  | empty
  | duplicateVariable (name : String)
  | shadowsIndependent (name : String)
  | unknownVariable (equation name : String)
  | unknownEntry (row column : String)
  | invalidEquation (source : String) (fault : EquationFault)
  | parse (cause : ParseError)
  | formula (cause : FormulaError α)
  | derivation (cause : DerivationError α)
  /-- Derivatives cannot be estimated. -/
  | difference (cause : DifferenceError α)
deriving Repr

/-- The sentence that reports why a system cannot be built. -/
def EquationsError.message : EquationsError Float → String
  | .empty => "Equation system must contain at least one equation"
  | .duplicateVariable name =>
    "Variable '" ++ name ++ "' is defined by more than one equation"
  | .shadowsIndependent name =>
    "State variable '" ++ name ++ "' has the same name as the independent variable"
  | .unknownVariable equation name =>
    "Equation for '" ++ equation ++ "' references unknown variable '" ++ name ++ "'"
  | .unknownEntry row column =>
    "Jacobian entry (" ++ row ++ ", " ++ column ++ ") does not name two state variables"
  | .invalidEquation source fault =>
    "Invalid equation '" ++ source ++ "': " ++ fault.message
  | .parse cause => cause.message
  | .formula cause => cause.message
  | .derivation cause => cause.message
  | .difference cause => cause.message

/-! ## Right-hand sides and partial derivatives

A system has one right-hand side for each of its variables, in order; the order matters to
methods that treat the variables one after the other.  A right-hand side may use the variables
and the independent variable.

Partial derivatives come from two places.  Entries can be attached one by one or for all pairs of
variables at once, and of two entries for one pair the one attached last counts.  For a pair
without an entry the derivative is estimated, once a way to estimate it has been attached.
-/

/-- Where an argument of a formula comes from. -/
inductive Slot where
  | independent
  | state (index : Nat)
deriving DecidableEq, Repr

/-- The place of a name: variables come before the independent variable. -/
def Slot.find? (names : List String) (independent name : String) : Option Slot :=
  match names.idxOf? name with
  | some index => some (.state index)
  | none => if name = independent then some .independent else none

/-- A formula whose arguments have been found in a system. -/
structure BoundFormula (α : Type) where
  formula : Formula α
  slots : List Slot

namespace BoundFormula

variable {α : Type}

/-- Finds the arguments of a formula; the label names the equation if one is missing. -/
def bind (label : String) (names : List String) (independent : String) (f : Formula α) :
    Except (EquationsError α) (BoundFormula α) := do
  let slots ← f.parameters.mapM fun name =>
    match Slot.find? names independent name with
    | some slot => .ok slot
    | none => .error (.unknownVariable label name)
  return ⟨f, slots⟩

variable [Elementary α]

/-- The value of an argument. -/
def argument (b : BoundFormula α) (t : α) (x : List α) (k : Nat) : α :=
  match b.slots[k]? with
  | some .independent => t
  | some (.state index) => x.getD index Elementary.undefined
  | none => Elementary.undefined

variable [Arithmetic α]

/-- The value of a formula at a time and a point. -/
def value (b : BoundFormula α) (t : α) (x : List α) : α := b.formula.valueAt (b.argument t x)

end BoundFormula

/-- Ordered right-hand sides, and what is known of their partial derivatives. -/
structure Equations (α : Type) where
  independent : String
  names : List String
  /-- The right-hand sides, one for each variable. -/
  rightHandSides : List (BoundFormula α)
  /-- The partial derivatives that were attached, by row and column, the last first. -/
  entries : List ((Nat × Nat) × BoundFormula α) := []
  /-- How the other partial derivatives are estimated. -/
  estimate : Option (Difference α) := none

namespace Equations

variable {α : Type}

/-- Looks through the names of the variables for the first that is the independent variable or
has been seen before. -/
def checkNames (independent : String) (seen names : List String) :
    Except (EquationsError α) Unit :=
  match names with
  | [] => .ok ()
  | name :: rest =>
    if name = independent then .error (.shadowsIndependent name)
    else if name ∈ seen then .error (.duplicateVariable name)
    else checkNames independent (name :: seen) rest

/-- The system with these right-hand sides. -/
def create (independent : String) (equations : List (String × Formula α)) :
    Except (EquationsError α) (Equations α) := do
  if equations.isEmpty then throw .empty
  let names := equations.map (·.1)
  checkNames independent [] names
  let rightHandSides ← equations.mapM fun (name, f) =>
    BoundFormula.bind name names independent f
  return { independent, names, rightHandSides }

/-- The index of a variable. -/
def index? (s : Equations α) (name : String) : Option Nat := s.names.idxOf? name

/-- The right-hand side of a variable. -/
def equation? (s : Equations α) (name : String) : Option (Formula α) := do
  let i ← s.index? name
  let b ← s.rightHandSides[i]?
  return b.formula

/-- The entry that counts for a row and a column. -/
def entryAt? (s : Equations α) (row column : Nat) : Option (BoundFormula α) :=
  s.entries.lookup (row, column)

/-- The entry that counts for two variables. -/
def entry? (s : Equations α) (row column : String) : Option (Formula α) := do
  let r ← s.index? row
  let c ← s.index? column
  let b ← s.entryAt? r c
  return b.formula

/-- One partial derivative with its arguments found. -/
def bindEntry (s : Equations α) (entry : (String × String) × Formula α) :
    Except (EquationsError α) ((Nat × Nat) × BoundFormula α) := do
  let (row, column) := entry.1
  match s.index? row, s.index? column with
  | some r, some c =>
    let label := "d" ++ row ++ "/d" ++ column
    return ((r, c), ← BoundFormula.bind label s.names s.independent entry.2)
  | _, _ => throw (.unknownEntry row column)

/-- Attaches partial derivatives by the names of their row and column. -/
def attach (s : Equations α) (entries : List ((String × String) × Formula α)) :
    Except (EquationsError α) (Equations α) := do
  let bound ← entries.mapM s.bindEntry
  return { s with entries := bound.reverse ++ s.entries }

/-- The partial derivative of one right-hand side with respect to one variable. -/
def symbolicEntry [Elementary α] [NatCast α] (evaluator : Evaluator) (row : String)
    (b : BoundFormula α) (column : String) :
    Except (EquationsError α) ((String × String) × Formula α) := do
  let slope ← (b.formula.expression.derivative column).mapError .derivation
  let f ← (Formula.build evaluator slope).mapError .formula
  return ((row, column), f)

/-- Attaches all partial derivatives, each found by symbolic differentiation. -/
def attachSymbolic [Elementary α] [NatCast α] (s : Equations α) (evaluator : Evaluator) :
    Except (EquationsError α) (Equations α) := do
  let rows ← (s.names.zip s.rightHandSides).mapM fun (row, b) =>
    s.names.mapM (symbolicEntry evaluator row b)
  s.attach rows.flatten

/-- Attaches a way to estimate the partial derivatives that have no entry. -/
def attachEstimate [NatCast α] [LT α] [DecidableLT α] [Finiteness α] (s : Equations α)
    (d : Difference α) : Except (EquationsError α) (Equations α) := do
  d.check.mapError .difference
  return { s with estimate := some d }

variable [Elementary α] [Arithmetic α]

/-- The value of one right-hand side. -/
def component (s : Equations α) (i : Nat) (t : α) (x : List α) : α :=
  match s.rightHandSides[i]? with
  | some b => b.value t x
  | none => Elementary.undefined

/-- The value of one partial derivative: of the entry that counts, or else an estimate. -/
def slope? (s : Equations α) (row column : Nat) (t : α) (x : List α) : Option α :=
  match s.entryAt? row column with
  | some b => some (b.value t x)
  | none =>
    s.estimate.map fun d =>
      d.derivative (fun v => s.component row t (x.set column v))
        (x.getD column Elementary.undefined)

/-- The system as the methods see it. -/
def toField (s : Equations α) : VectorField α := ⟨s.names, s.component, s.slope?⟩

/-- The system as the methods see it when they are shown no partial derivatives. -/
def toPlainField (s : Equations α) : VectorField α := ⟨s.names, s.component, fun _ _ _ _ => none⟩

end Equations

end Fluxion

namespace Fluxion.Equations

/-! ## Systems from text

Each equation is a statement `x' = expression`: the derivative of a variable, of first order, is
assigned an expression without derivatives.  The settings say how the right-hand sides are
evaluated, how the independent variable is called, and where the partial derivatives come from.
-/

/-- The variable of a statement `x' = expression`, and the expression. -/
def split (statement : Statement Float) : Except EquationFault (String × Expr Float) :=
  match statement with
  | .expression _ => .error .notAnAssignment
  | .assignment (.marker (.symbol name)) value =>
    if value.hasMarker then .error .markerOnRight else .ok (name, value)
  | .assignment (.marker _) _ => .error .notFirstOrder
  | .assignment _ _ => .error .notADerivative

/-- The variable and the right-hand side that a text stands for. -/
def readEquation (evaluator : Evaluator) (source : String) :
    Except (EquationsError Float) (String × Formula Float) := do
  let statement ← (Statement.parse source).mapError .parse
  let (name, value) ← (split statement).mapError (.invalidEquation source)
  let f ← (Formula.build evaluator value).mapError .formula
  return (name, f)

/-- Attaches the partial derivatives that the settings ask for. -/
def attachJacobian (s : Equations Float) (settings : Settings) :
    Except (EquationsError Float) (Equations Float) :=
  match settings.jacobian with
  | .symbolic => s.attachSymbolic settings.evaluator
  | .finiteDifference => s.attachEstimate settings.difference

/-- The system that a list of texts stands for. -/
def ofSources (sources : List String) (settings : Settings) :
    Except (EquationsError Float) (Equations Float) := do
  let equations ← sources.mapM (readEquation settings.evaluator)
  let s ← create settings.independent equations
  s.attachJacobian settings

end Fluxion.Equations
