import Fluxion.Formula

/-!
# Finite differences

The derivative of a function of one variable is estimated from two of its values, on both sides
of a point or on one side of it.  There are two ways to the quotient: one for functions that always
have a value, and one for formulas at a point, whose values may fail and are computed one after the
other at a copy of the point in which one coordinate is overwritten.
-/

set_option autoImplicit false

namespace Fluxion

/-- Where the two values of a difference quotient are taken. -/
inductive Scheme where
  | central
  | left
  | right
deriving DecidableEq, Repr

/-- How a scheme is named in settings. -/
def Scheme.name : Scheme → String
  | .central => "central"
  | .left => "left"
  | .right => "right"

/-- The scheme with this name. -/
def Scheme.ofName? (name : String) : Option Scheme :=
  [Scheme.central, .left, .right].find? fun scheme => scheme.name = name

/-- A scheme and the distance of the points. -/
structure Difference (α : Type) where
  scheme : Scheme
  increment : α
deriving DecidableEq, Repr

/-- The usual way to estimate a derivative. -/
def Difference.standard : Difference Float := ⟨.central, 1e-6⟩

/-- Why a derivative cannot be estimated. -/
inductive DifferenceError (α : Type) where
  | invalidIncrement (increment : α)
  | wrongDimension (expected actual : Nat)
  | noSuchVariable (index dimension : Nat)
  | evaluation (cause : EvaluationError)
deriving DecidableEq, Repr

/-- The sentence that reports why a derivative cannot be estimated. -/
def DifferenceError.message : DifferenceError Float → String
  | .invalidIncrement x =>
    "Finite-difference increment must be positive and finite, got " ++ Decimal.plain x
  | .wrongDimension expected actual =>
    "Point has dimension " ++ toString actual ++ ", function expects " ++ toString expected
  | .noSuchVariable index dimension =>
    "Variable index " ++ toString index ++ " out of range for " ++ toString dimension
      ++ " variable(s)"
  | .evaluation cause => cause.message

namespace Difference

variable {α : Type}

/-- Refuses a distance that is not a positive number. -/
def check [NatCast α] [LT α] [DecidableLT α] [Finiteness α] (d : Difference α) :
    Except (DifferenceError α) Unit :=
  if IsPositive d.increment then .ok () else .error (.invalidIncrement d.increment)

variable [Arithmetic α]

/-- The difference quotient of a function that always has a value. -/
def derivative (d : Difference α) (f : α → α) (x : α) : α :=
  let h := d.increment
  match d.scheme with
  | .central => (f (x + h) - f (x - h)) / (two * h)
  | .left => (f x - f (x - h)) / h
  | .right => (f (x + h) - f x) / h

/-- The difference quotient of a function whose values are computed one after the other, the one
farther up first. -/
def slope {m : Type → Type} [Monad m] (d : Difference α) (f : α → m α) (x : α) : m α :=
  let h := d.increment
  match d.scheme with
  | .central => do
    let above ← f (x + h)
    let below ← f (x - h)
    return (above - below) / (two * h)
  | .left => do
    let here ← f x
    let below ← f (x - h)
    return (here - below) / h
  | .right => do
    let above ← f (x + h)
    let here ← f x
    return (above - here) / h

variable [Elementary α]

/-- Overwrites one coordinate of a point and computes the value of a formula there. -/
def evaluateAt (f : Formula α) (index : Nat) (x : α) :
    StateT (List α) (Except (DifferenceError α)) α := do
  modify fun point => point.set index x
  let point ← get
  StateT.lift ((f.evaluate point).mapError .evaluation)

variable [LT α] [DecidableLT α] [Finiteness α]

/-- The estimated derivative of a formula with respect to one of its variables.  All values are
computed at one copy of the point, which keeps the coordinate that was written last. -/
def partialDerivative (d : Difference α) (f : Formula α) (point : List α) (index : Nat) :
    Except (DifferenceError α) α := do
  d.check
  let dimension := f.parameters.length
  if point.length ≠ dimension then throw (.wrongDimension dimension point.length)
  match point[index]? with
  | none => throw (.noSuchVariable index dimension)
  | some x => (d.slope (evaluateAt f index) x).run' point

/-- The estimated derivatives of a formula with respect to all of its variables, in order. -/
def gradient (d : Difference α) (f : Formula α) (point : List α) :
    Except (DifferenceError α) (List α) :=
  (List.range f.parameters.length).mapM (d.partialDerivative f point)

end Difference

end Fluxion
