import Fluxion.Solver.Basic

/-!
# The journal

What the methods announce while they are set up and while they run.  An event is data; its level
and its words are given here, in one place, and a reader of the journal chooses from which level
on events are shown.

An attempt is a computation that may fail and that announces events on its way, whether it fails
or not.
-/

set_option autoImplicit false

namespace Fluxion

/-- How important an event is, from the most to the least important. -/
inductive LogLevel where
  | off
  | error
  | warn
  | info
  | debug
  | trace
deriving DecidableEq, Repr

namespace LogLevel

/-- How a level is named. -/
def name : LogLevel → String
  | .off => "off"
  | .error => "error"
  | .warn => "warn"
  | .info => "info"
  | .debug => "debug"
  | .trace => "trace"

/-- The level with this name. -/
def ofName? (name : String) : Option LogLevel :=
  [off, error, warn, info, debug, trace].find? fun level => level.name = name

/-- The place of a level in the order. -/
def rank : LogLevel → Nat
  | .off => 0
  | .error => 1
  | .warn => 2
  | .info => 3
  | .debug => 4
  | .trace => 5

/-- Whether a journal that is kept at one level shows an event of another. -/
def shows (active level : LogLevel) : Bool := level.rank ≤ active.rank

end LogLevel

/-- What is announced. -/
inductive Event (α : Type) where
  | wrapping (name : String) (stages : Nat)
  | started (method : String) (dimension : Nat) (step : α)
  | startedStages (method : String) (dimension stages : Nat) (step : α)
  | startedNewton (method : String) (dimension : Nat) (step : α) (newton : NewtonSettings α)
  | extrapolating (base : String) (coefficients : List Nat) (step : α)
  | reached (time : α) (values : List α)
  /-- Newton's iteration has not come to rest, and its last value is kept. -/
  | notConverged (name : String) (iterations : Nat) (time : α)
  | simulationStarted (solver : String) (dimension : Nat)
deriving Repr

namespace Event

/-- How important an event is. -/
def level {α : Type} : Event α → LogLevel
  | .notConverged _ _ _ => .warn
  | .simulationStarted _ _ => .info
  | .reached _ _ => .trace
  | .wrapping _ _ | .started _ _ _ | .startedStages _ _ _ _ | .startedNewton _ _ _ _
  | .extrapolating _ _ _ => .debug

/-- A list between brackets. -/
def bracketed (items : List String) : String := "[" ++ ", ".intercalate items ++ "]"

/-- The settings of Newton's iteration, field by field. -/
def newtonText (s : NewtonSettings Float) : String :=
  "NewtonSettings \x7b max_iterations: " ++ toString s.maxIterations ++ ", tolerance_factor: "
    ++ Decimal.listed s.toleranceFactor ++ ", on_non_convergence: " ++ s.onNonConvergence.label
    ++ " \x7d"

/-- How many variables there are. -/
def variableCount (dimension : Nat) : String := toString dimension ++ " variable(s)"

/-- The words for an event. -/
def message : Event Float → String
  | .wrapping name stages =>
    "Wrapping '" ++ name ++ "' in " ++ toString stages ++ "-stage extrapolation"
  | .started method dimension step =>
    method ++ ": " ++ variableCount dimension ++ ", step " ++ Decimal.plain step
  | .startedStages method dimension stages step =>
    method ++ ": " ++ variableCount dimension ++ ", " ++ toString stages ++ " stage(s), step "
      ++ Decimal.plain step
  | .startedNewton method dimension step newton =>
    method ++ ": " ++ variableCount dimension ++ ", step " ++ Decimal.plain step ++ ", "
      ++ newtonText newton
  | .extrapolating base coefficients step =>
    "Extrapolating " ++ base ++ " with coefficients " ++ bracketed (coefficients.map toString)
      ++ ", step " ++ Decimal.plain step
  | .reached time values =>
    "t = " ++ Decimal.plain time ++ ": " ++ bracketed (values.map Decimal.listed)
  | .notConverged name iterations time =>
    "Newton correction for '" ++ name ++ "' stopped after " ++ toString iterations
      ++ " iterations at t = " ++ Decimal.plain time
  | .simulationStarted solver dimension =>
    "Started " ++ solver ++ " for " ++ variableCount dimension

end Event

/-- A computation that may fail with an `ε`, and the events that it announced. -/
structure Attempt (α ε β : Type) where
  result : Except ε β
  /-- What was announced, in order. -/
  events : List (Event α)

namespace Attempt

variable {α ε ε' β γ : Type}

/-- The attempt that succeeds and announces nothing. -/
def succeed (b : β) : Attempt α ε β := ⟨.ok b, []⟩

/-- The attempt that fails and announces nothing. -/
def fail (e : ε) : Attempt α ε β := ⟨.error e, []⟩

/-- Goes on with what came of an attempt, unless it failed. -/
def andThen (a : Attempt α ε β) (f : β → Attempt α ε γ) : Attempt α ε γ :=
  match a.result with
  | .ok b =>
    let next := f b
    ⟨next.result, a.events ++ next.events⟩
  | .error e => ⟨.error e, a.events⟩

/-- Attempts in sequence: the second is made only if the first succeeds, and announces its events
behind those of the first. -/
instance : Monad (Attempt α ε) where
  pure := succeed
  bind := andThen

/-- The attempt with this result that announces nothing. -/
def ofExcept (r : Except ε β) : Attempt α ε β := ⟨r, []⟩

/-- Announces an event. -/
def announce (e : Event α) : Attempt α ε Unit := ⟨.ok (), [e]⟩

/-- Says otherwise why an attempt failed. -/
def mapError (f : ε → ε') (a : Attempt α ε β) : Attempt α ε' β :=
  ⟨a.result.mapError f, a.events⟩

end Attempt

end Fluxion
