import Fluxion.Difference
import Fluxion.Document.Reader
import Fluxion.Journal

/-!
# Settings

What a user may choose, and how a document says so.
-/

set_option autoImplicit false

namespace Fluxion

/-! ## What can be chosen

What a user may choose: how formulas are evaluated, how the independent variable is called,
Newton's iteration, where partial derivatives come from, and how much is written to the journal.
-/

/-- Where the partial derivatives of a system come from. -/
inductive JacobianSource where
  | symbolic
  /-- They are estimated when they are asked for. -/
  | finiteDifference
deriving DecidableEq, Repr

/-- How a source of partial derivatives is named in settings. -/
def JacobianSource.name : JacobianSource → String
  | .symbolic => "symbolic"
  | .finiteDifference => "finite_difference"

/-- The source of partial derivatives with this name. -/
def JacobianSource.ofName? (name : String) : Option JacobianSource :=
  [JacobianSource.symbolic, .finiteDifference].find? fun source => source.name = name

/-- Everything that can be chosen. -/
structure Settings where
  evaluator : Evaluator := .interpreted
  independent : String := "t"
  newton : NewtonSettings Float := .standard
  jacobian : JacobianSource := .symbolic
  /-- How derivatives are estimated, if they are. -/
  difference : Difference Float := .standard
  /-- From which level on events are shown. -/
  logLevel : LogLevel := .warn
deriving Repr

/-- What is wrong with settings. -/
inductive SettingsError where
  | unreadable
  | emptyIndependent
  | newton (cause : SolverError Float)
  | difference (cause : DifferenceError Float)
deriving Repr

/-- The sentence that reports what is wrong with settings. -/
def SettingsError.message : SettingsError → String
  | .unreadable => "Failed to parse engine settings."
  | .emptyIndependent => "independent_variable must not be empty."
  | .newton cause => cause.message
  | .difference cause => "Invalid finite-difference settings.: " ++ cause.message

/-- Refuses settings that make no sense. -/
def Settings.check (s : Settings) : Except SettingsError Unit := do
  if s.independent.isEmpty then throw .emptyIndependent
  s.newton.check.mapError .newton
  s.difference.check.mapError .difference

/-! ## Settings in a document

A document gives settings by name, and what it does not name keeps its usual value.  Names that
mean nothing are passed over.  A table of settings may also be a list that gives the values in
the order of their names, as many as it likes from the front.

Settings come in one of two carriers: as the text of a document, or as an object that was handed
over as data.  The carriers differ in two rules, and only there.
-/

/-- How settings arrive. -/
inductive SettingsCarrier where
  | text
  | data
deriving DecidableEq, Repr

namespace SettingsCarrier

/-- Whether a list may have more items than its table has names: in a text it may, and the
excess is passed over. -/
def allowsExcess (carrier : SettingsCarrier) : Bool := carrier = .text

/-- Whether a value stands for the absence of content: an empty list or table in a text, and an
explicit nothing in data. -/
def isEmpty (carrier : SettingsCarrier) (d : Document) : Bool :=
  match carrier, d with
  | .text, .list items | .text, .series items => items.isEmpty
  | .text, .table _ entries => entries.isEmpty
  | .data, .nothing => true
  | _, _ => false

/-- The bounds, least included and greatest excluded, of the whole numbers that may stand for a
number with a fraction. -/
def wholeBounds : Int × Int := (-(Nat.pow 2 63 : Nat), (Nat.pow 2 64 : Nat))

/-- The bound of a count. -/
def countBound : Int := (Nat.pow 2 64 : Nat)

end SettingsCarrier

namespace Document

/-- The items of a list or series under the names that their places stand for. -/
def ofItems? (carrier : SettingsCarrier) (names : List String) (items : List Document) :
    Option (List (String × Document)) :=
  if items.length ≤ names.length || carrier.allowsExcess then some (names.zip items) else none

/-- The values of a table of settings by name.  Entries under other names only have to be
readable. -/
def entries? (carrier : SettingsCarrier) (names : List String) (d : Document) :
    Option (List (String × Document)) :=
  match d with
  | .table _ entries =>
    if entries.all fun entry => names.contains entry.1 || entry.2.isReadable then some entries
    else none
  | .list items | .series items => ofItems? carrier names items
  | _ => none

/-- Reads the value of a name, which keeps its usual value if there is none. -/
def readOr? {β : Type} (entries : List (String × Document)) (name : String) (usual : β)
    (read? : Document → Option β) : Option β :=
  match entries.lookup name with
  | none => some usual
  | some d => read? d

/-- A choice among a few names: a text, or a table whose only name is the choice and has nothing
under it. -/
def choice? {β : Type} (carrier : SettingsCarrier) (ofName? : String → Option β)
    (d : Document) : Option β :=
  match d with
  | .text name => ofName? name
  | .table _ [(name, value)] => if carrier.isEmpty value then ofName? name else none
  | _ => none

/-- A text. -/
def text? : Document → Option String
  | .text value => some value
  | _ => none

/-- A count: a whole number that is not negative and has at most 64 binary digits. -/
def count? : Document → Option Nat
  | .integer n => if 0 ≤ n ∧ n < SettingsCarrier.countBound then some n.toNat else none
  | _ => none

/-- A number: one with a fraction, or a whole number that is not too large. -/
def number? : Document → Option Float
  | .real x => some x
  | .integer n =>
    if SettingsCarrier.wholeBounds.1 ≤ n ∧ n < SettingsCarrier.wholeBounds.2 then
      let magnitude := Decimal.nearest n.natAbs 1
      some (if n < 0 then -magnitude else magnitude)
    else none
  | _ => none

/-- The settings of Newton's iteration. -/
def newton? (carrier : SettingsCarrier) (d : Document) : Option (NewtonSettings Float) := do
  let usual := NewtonSettings.standard
  let entries ← entries? carrier ["max_iterations", "tolerance_factor", "on_non_convergence"] d
  return {
    maxIterations := ← readOr? entries "max_iterations" usual.maxIterations count?
    toleranceFactor := ← readOr? entries "tolerance_factor" usual.toleranceFactor number?
    onNonConvergence := ← readOr? entries "on_non_convergence" usual.onNonConvergence
      (choice? carrier NonConvergence.ofName?) }

/-- How derivatives are estimated. -/
def difference? (carrier : SettingsCarrier) (d : Document) : Option (Difference Float) := do
  let usual := Difference.standard
  let entries ← entries? carrier ["scheme", "increment"] d
  return {
    scheme := ← readOr? entries "scheme" usual.scheme (choice? carrier Scheme.ofName?)
    increment := ← readOr? entries "increment" usual.increment number? }

/-- All settings. -/
def settings? (carrier : SettingsCarrier) (d : Document) : Option Settings := do
  let usual : Settings := {}
  let entries ← entries? carrier
    ["evaluator", "independent_variable", "newton", "jacobian", "finite_difference",
      "log_level"] d
  return {
    evaluator := ← readOr? entries "evaluator" usual.evaluator
      (choice? carrier Evaluator.ofName?)
    independent := ← readOr? entries "independent_variable" usual.independent text?
    newton := ← readOr? entries "newton" usual.newton (newton? carrier)
    jacobian := ← readOr? entries "jacobian" usual.jacobian
      (choice? carrier JacobianSource.ofName?)
    difference := ← readOr? entries "finite_difference" usual.difference (difference? carrier)
    logLevel := ← readOr? entries "log_level" usual.logLevel (choice? carrier LogLevel.ofName?) }

end Document

/-- The settings that a text in TOML holds, if they make sense. -/
def Settings.ofText (source : String) : Except SettingsError Settings := do
  let some document := Document.parse? source | throw .unreadable
  let some settings := document.settings? .text | throw .unreadable
  settings.check
  return settings

/-- The settings that were handed over as data, whether they make sense or not. -/
def Settings.ofData? (d : Document) : Option Settings := d.settings? .data

end Fluxion
