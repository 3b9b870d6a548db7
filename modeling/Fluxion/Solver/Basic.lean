import Fluxion.System
import Fluxion.Text

/-!
# Solvers

The fixed-step methods as data, with the coefficients and settings that they are made from.
-/

set_option autoImplicit false

namespace Fluxion

/-! ## Tables of coefficients

An explicit method with stages is given by a square matrix and a row of weights.  Stage `i`
evaluates the right-hand side at a point that the earlier stages determine, through row `i` of
the matrix; the sum of that row says how far into the step the evaluation lies.  The step follows
the weighted sum of the stages.
-/

/-- The matrix, row by row, and the weights. -/
structure Tableau (α : Type) where
  rows : List (List α)
  weights : List α
deriving Repr

namespace Tableau

variable {α : Type}

/-- The number of stages. -/
def stages (tab : Tableau α) : Nat := tab.weights.length

section Building

variable [NatCast α] [BEq α]

/-- The first entry on or above the diagonal that is not zero, row by row. -/
def implicitEntry? (rows : List (List α)) : Option (TableauFault α) :=
  rows.zipIdx.findSome? fun (row, i) =>
    row.zipIdx.findSome? fun (entry, j) =>
      if i ≤ j ∧ !(entry == zero) then some (.implicitEntry entry i j) else none

/-- The length of the first row whose length is not the number of rows. -/
def oddRow? (rows : List (List α)) : Option Nat :=
  (rows.map List.length).find? fun length => length ≠ rows.length

/-- The table with these rows and weights.  The matrix has to be square and not empty, with as
many weights as rows, and nothing but zeros on and above the diagonal. -/
def create (rows : List (List α)) (weights : List α) : Except (SolverError α) (Tableau α) :=
  let refuse (fault : TableauFault α) : Except (SolverError α) (Tableau α) :=
    .error (.invalidTableau fault)
  if rows = [] then refuse (.shape 0 0)
  else
    match oddRow? rows with
    | some columns => refuse (.shape rows.length columns)
    | none =>
      if weights.length ≠ rows.length then refuse (.weights weights.length rows.length)
      else
        match implicitEntry? rows with
        | some fault => refuse fault
        | none => .ok ⟨rows, weights⟩

end Building

section Standard

variable [Arithmetic α]

/-- A quotient of two whole numbers. -/
def ratio (num den : Nat) : α := (num : α) / (den : α)

/-- Heun's method, of order two. -/
def heun : Tableau α :=
  ⟨[[zero, zero], [one, zero]], [ratio 1 2, ratio 1 2]⟩

/-- Kutta's method of order three. -/
def kutta : Tableau α :=
  ⟨[[zero, zero, zero], [ratio 1 2, zero, zero], [-one, two, zero]],
    [ratio 1 6, ratio 2 3, ratio 1 6]⟩

/-- The classical method of order four. -/
def classical : Tableau α :=
  ⟨[[zero, zero, zero, zero], [ratio 1 2, zero, zero, zero], [zero, ratio 1 2, zero, zero],
      [zero, zero, one, zero]],
    [ratio 1 6, ratio 1 3, ratio 1 3, ratio 1 6]⟩

end Standard

section Stepping

variable [Arithmetic α]

/-- The sum of a row, from the left, starting from zero. -/
def node (row : List α) : α := row.foldl (· + ·) zero

/-- How far into the step each stage lies. -/
def nodes (tab : Tableau α) : List α := tab.rows.map node

/-- The weighted sum of one coordinate of the earlier stages, from the left, starting from the
negative zero. -/
def earlierSum (row : List α) (earlier : List (List α)) (v : Nat) : α :=
  (row.zip earlier).foldl (fun sum (a, k) => sum + a * coordinate k v) (-zero)

/-- The point at which a stage evaluates the right-hand side. -/
def stagePoint (h : α) (x row : List α) (earlier : List (List α)) : List α :=
  (List.range x.length).map fun v => coordinate x v + h * earlierSum row earlier v

/-- The right-hand side as one more stage sees it. -/
def nextStage (field : VectorField α) (t h : α) (x : List α) (earlier : List (List α))
    (row : List α) : List (List α) :=
  earlier ++ [field.rates (t + node row * h) (stagePoint h x row earlier)]

/-- The right-hand sides of all stages, in order. -/
def stageRates (tab : Tableau α) (field : VectorField α) (t h : α) (x : List α) :
    List (List α) :=
  tab.rows.foldl (nextStage field t h x) []

/-- The weighted sum of one coordinate of all stages.  The first term starts the sum and each
later one is put in front of it. -/
def weightedSum (weights : List α) (rates : List (List α)) (v : Nat) : α :=
  match rates.zip weights with
  | [] => zero
  | (k, b) :: rest =>
    rest.foldl (fun sum (k, b) => coordinate k v * b + sum) (coordinate k v * b)

/-- The values after one step. -/
def advance (tab : Tableau α) (field : VectorField α) (t h : α) (x : List α) : List α :=
  let rates := tab.stageRates field t h x
  (List.range x.length).map fun v => coordinate x v + h * weightedSum tab.weights rates v

end Stepping

end Tableau

/-! ## Settings of Newton's iteration

How many corrections are allowed, how small a correction ends the iteration, and what happens
when none was small enough.
-/

/-- What happens when the iteration has not come to rest. -/
inductive NonConvergence where
  /-- The last value is kept. -/
  | accept
  /-- The last value is kept, and a warning is given. -/
  | warn
  | fail
deriving DecidableEq, Repr

/-- How a policy is named in settings. -/
def NonConvergence.name : NonConvergence → String
  | .accept => "accept"
  | .warn => "warn"
  | .fail => "fail"

/-- The policy with this name. -/
def NonConvergence.ofName? (name : String) : Option NonConvergence :=
  [NonConvergence.accept, .warn, .fail].find? fun policy => policy.name = name

/-- How a policy is named in the journal. -/
def NonConvergence.label : NonConvergence → String
  | .accept => "Accept"
  | .warn => "Warn"
  | .fail => "Fail"

/-- The settings of the iteration. -/
structure NewtonSettings (α : Type) where
  /-- The most corrections that are made. -/
  maxIterations : Nat
  /-- The iteration ends once a correction is smaller than the step times this factor. -/
  toleranceFactor : α
  onNonConvergence : NonConvergence
deriving Repr

/-- The usual settings. -/
def NewtonSettings.standard : NewtonSettings Float := ⟨15, 1e-12, .warn⟩

/-- Refuses settings that allow no correction or no end. -/
def NewtonSettings.check {α : Type} [NatCast α] [LT α] [DecidableLT α] [Finiteness α]
    (s : NewtonSettings α) : Except (SolverError α) Unit :=
  if s.maxIterations = 0 then .error (.invalidNewton .noIterations)
  else if IsPositive s.toleranceFactor then .ok ()
  else .error (.invalidNewton .tolerance)

/-! ## The methods

The fixed-step methods: Euler's, the leapfrog form of the midpoint rule, explicit methods given
by a table of coefficients, the semi-implicit midpoint rule with Newton's correction, and the
extrapolation of any of them, itself included.

An order of accuracy is a word of 32 bits.  Sums of orders are taken modulo `2 ^ 32`, and where an
order is the exponent of a power it is read as a signed word.
-/

/-- A fixed-step method. -/
inductive Solver (α : Type) where
  | euler
  | midpoint
  /-- An explicit method with stages, with the name and the order that it is given. -/
  | stages (name : String) (order : UInt32) (tableau : Tableau α)
  | semiImplicit (newton : NewtonSettings α)
  | extrapolation (base : Solver α) (runs : Nat) (runs_pos : 0 < runs)

/-- What a solver says about itself. -/
structure Description where
  name : String
  /-- The order of accuracy. -/
  order : UInt32
  /-- Whether the error has even powers of the step only. -/
  symmetric : Bool
deriving DecidableEq, Repr

/-- The powers of the step that one more run of a method removes from the error, which is also
the multiple of the run's number that the run divides the step into. -/
def Description.gain (d : Description) : Nat := if d.symmetric then 2 else 1

/-- Each run of an extrapolation gains at least one order. -/
theorem Description.gain_pos (d : Description) : 0 < d.gain := by
  unfold gain
  split <;> decide

/-- The exponent with which extrapolation weighs two runs of a method: the order as a signed
word, which is negative from `2 ^ 31` on. -/
def Description.exponent (d : Description) : Int := d.order.toInt32.toInt

namespace Solver

variable {α : Type}

/-- The name, the order and the symmetry of a solver. -/
def description : Solver α → Description
  | .euler => ⟨"Explicit Euler", 1, false⟩
  | .midpoint => ⟨"Explicit midpoint", 2, true⟩
  | .stages name order _ => ⟨name, order, false⟩
  | .semiImplicit _ => ⟨"Semi-implicit midpoint", 2, true⟩
  | .extrapolation base runs _ =>
    let inner := base.description
    ⟨inner.name ++ " (" ++ toString runs ++ " stages)",
      inner.order + UInt32.ofNat ((runs - 1) * inner.gain), false⟩

/-- The numbers of steps into which the runs of an extrapolation divide a step. -/
def coefficients (base : Solver α) (runs : Nat) : List Nat :=
  (List.range runs).map fun i => base.description.gain * (i + 1)

/-- The structure of an extrapolation: the name of its base and its numbers of steps. -/
def outline (base : Solver α) (runs : Nat) : String :=
  "Extrapolation \x7b base: " ++ Text.quoted base.description.name ++ ", coefficients: ["
    ++ ", ".intercalate ((base.coefficients runs).map toString) ++ "] \x7d"

/-- Heun's method. -/
def heun [Arithmetic α] : Solver α := .stages "Heun" 2 .heun

/-- Kutta's method of order three. -/
def kutta [Arithmetic α] : Solver α := .stages "Kutta 3" 3 .kutta

/-- The classical method of order four. -/
def classical [Arithmetic α] : Solver α := .stages "Runge-Kutta 4" 4 .classical

/-- The semi-implicit rule with these settings, if they make sense. -/
def withNewton [NatCast α] [LT α] [DecidableLT α] [Finiteness α] (newton : NewtonSettings α) :
    Except (SolverError α) (Solver α) := do
  newton.check
  return .semiImplicit newton

/-- The extrapolation of a solver from a number of runs, of which there has to be one. -/
def extrapolate (base : Solver α) (runs : Nat) : Except (SolverError α) (Solver α) :=
  if h : 0 < runs then .ok (.extrapolation base runs h) else .error (.invalidStages runs)

end Solver

end Fluxion
