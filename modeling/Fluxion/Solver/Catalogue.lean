import Fluxion.Journal
import Fluxion.Solver.Run

/-!
# The catalogue of solvers

Solvers in the order in which they are offered, each under a key.  A solver is asked for by its
key or by the name that it shows, and by a number of stages: with more than one it is wrapped in
extrapolation.
-/

set_option autoImplicit false

namespace Fluxion

/-- Solvers under keys, in the order in which the keys were first used. -/
structure Catalogue (α : Type) where
  entries : List (String × Solver α) := []

/-- Why a catalogue cannot be made, or has no solver to give. -/
inductive CatalogueError (α : Type) where
  | semiImplicit (cause : SolverError α)
  | stagesOutOfRange (stages : Nat)
  | unknownSolver (name : String) (known : List String)
  | extrapolation (cause : SolverError α)
deriving Repr

/-- The most stages that are offered. -/
def maxStages : Nat := 8

/-- The sentence that reports an error of a catalogue. -/
def CatalogueError.message : CatalogueError Float → String
  | .semiImplicit cause => "Invalid semi-implicit solver settings.: " ++ cause.message
  | .stagesOutOfRange stages =>
    "Extrapolation stages must be between 1 and " ++ toString maxStages ++ ", got "
      ++ toString stages ++ "."
  | .unknownSolver name known =>
    "Unknown solver '" ++ name ++ "'. Available: " ++ ", ".intercalate known ++ "."
  | .extrapolation cause => cause.message

namespace Catalogue

variable {α : Type}

/-- The keys, in order. -/
def keys (c : Catalogue α) : List String := c.entries.map (·.1)

/-- What the solvers say about themselves, in order. -/
def descriptions (c : Catalogue α) : List Description := c.entries.map (·.2.description)

/-- Puts a solver under a key; one that was there before is replaced and keeps its place. -/
def register (c : Catalogue α) (key : String) (solver : Solver α) : Catalogue α :=
  if key ∈ c.keys then
    ⟨c.entries.map fun entry => if entry.1 = key then (key, solver) else entry⟩
  else ⟨c.entries ++ [(key, solver)]⟩

/-- The first solver with this key or with this name. -/
def get? (c : Catalogue α) (name : String) : Option (Solver α) :=
  (c.entries.find? fun (key, solver) => key = name || solver.description.name = name).map (·.2)

/-- The solver with this key or name, wrapped in extrapolation if more than one stage is asked
for. -/
def build (c : Catalogue α) (name : String) (stages : Nat) :
    Attempt α (CatalogueError α) (Solver α) :=
  if stages = 0 ∨ maxStages < stages then Attempt.fail (.stagesOutOfRange stages)
  else
    match c.get? name with
    | none => Attempt.fail (.unknownSolver name c.keys)
    | some base =>
      if stages = 1 then Attempt.succeed base
      else do
        Attempt.announce (.wrapping name stages)
        Attempt.ofExcept ((base.extrapolate stages).mapError .extrapolation)

/-- Every solver that is built in, in the order in which they are offered. -/
def standard [Arithmetic α] [LT α] [DecidableLT α] [Finiteness α] (newton : NewtonSettings α) :
    Except (CatalogueError α) (Catalogue α) := do
  let semiImplicit ← (Solver.withNewton newton).mapError .semiImplicit
  return {
    entries := [("euler", .euler), ("midpoint", .midpoint), ("heun", .heun),
      ("kutta3", .kutta), ("rk4", .classical), ("semi_implicit", semiImplicit)] }

end Catalogue

end Fluxion
