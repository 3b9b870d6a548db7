import Fluxion.Expr.Basic

/-!
# Formulas

An expression that can be evaluated, at arguments given by position or by name.  It is evaluated by
walking over the tree or by running a program that was compiled once; the value is the same.
-/

set_option autoImplicit false

namespace Fluxion

/-! ## Errors of formulas

Why an expression cannot be evaluated at all, and why a formula cannot be evaluated at the
arguments it was given.
-/

/-- Why an expression cannot be evaluated. -/
inductive FormulaError (ν : Type) where
  | unsupportedFunction (name : String)
  | unexpandedMarker (inner : Expr ν)
  | assignment
  | unboundVariable (name : String)
deriving Repr

/-- The sentence that reports why an expression cannot be evaluated. -/
def FormulaError.message : FormulaError Float → String
  | .unsupportedFunction name => "Unsupported function: " ++ name
  | .unexpandedMarker inner =>
    "Derivative marker on '" ++ inner.text ++ "' must be expanded before evaluation"
  | .assignment => "Assignments cannot be evaluated"
  | .unboundVariable name => "Variable '" ++ name ++ "' has no argument slot"

/-- Why a formula has no value at the arguments it was given. -/
inductive EvaluationError where
  | arity (expected actual : Nat)
  | bindings (missing unexpected : List String)
deriving DecidableEq, Repr

/-- The sentence that reports why a formula has no value. -/
def EvaluationError.message : EvaluationError → String
  | .arity expected actual =>
    "Expected " ++ toString expected ++ " argument(s), got " ++ toString actual
  | .bindings missing unexpected =>
    "Bindings do not match free variables (missing: [" ++ ", ".intercalate missing
      ++ "], unexpected: [" ++ ", ".intercalate unexpected ++ "])"

/-! ## Stack programs

An expression can be compiled to a program for a machine with one stack.  Operands are computed
first, the left before the right, and each instruction takes its operands from the top of the
stack and puts its result there.  A program also says how deep the stack gets while it runs.

The machine is total: an operand that is not there is the undefined scalar.
-/

/-- One instruction of the machine. -/
inductive Instruction (ν : Type) where
  | load (value : ν)
  | argument (index : Nat)
  | binary (op : Operator)
  | neg
  | apply (f : Builtin)
deriving BEq, Repr

namespace Instruction

variable {α : Type}

/-- The height of the stack after an instruction. -/
def heightAfter (i : Instruction α) (height : Nat) : Nat :=
  match i with
  | .load _ | .argument _ => height + 1
  | .binary _ => height - 1
  | .neg | .apply _ => height

/-- The greatest height of the stack while a row of instructions runs, given the height before
and the greatest height so far. -/
def peak (height highest : Nat) (code : List (Instruction α)) : Nat :=
  match code with
  | [] => highest
  | i :: rest => peak (i.heightAfter height) (max highest (i.heightAfter height)) rest

variable [Arithmetic α] [Elementary α]

/-- What one instruction does to the stack, whose top is the head of the list. -/
def step (args : Nat → α) (stack : List α) (i : Instruction α) : List α :=
  let top (stack : List α) : α := stack.head?.getD Elementary.undefined
  match i with
  | .load value => value :: stack
  | .argument index => args index :: stack
  | .binary op => op.apply (top stack.tail) (top stack) :: stack.tail.tail
  | .neg => (-top stack) :: stack.tail
  | .apply f => f.apply (top stack) :: stack.tail

/-- What a row of instructions does to the stack. -/
def execute (args : Nat → α) (code : List (Instruction α)) (stack : List α) : List α :=
  code.foldl (step args) stack

end Instruction

/-- A row of instructions and the greatest height of the stack while it runs. -/
structure Program (ν : Type) where
  code : List (Instruction ν)
  depth : Nat
deriving BEq, Repr

namespace Program

variable {α : Type}

/-- The program with these instructions. -/
def ofCode (code : List (Instruction α)) : Program α := ⟨code, Instruction.peak 0 0 code⟩

variable [Arithmetic α] [Elementary α]

/-- Runs a program on an empty stack: the value on top at the end, and what is left under it. -/
def run (p : Program α) (args : Nat → α) : α × List α :=
  let stack := Instruction.execute args p.code []
  (stack.head?.getD Elementary.undefined, stack.tail)

end Program

namespace Expr

variable {α : Type} [Elementary α]

/-- The instructions that compute an expression, given the argument of each variable. -/
def instructions (slot : String → Option Nat) :
    Expr α → Except (FormulaError α) (List (Instruction α))
  | .number x => .ok [.load x]
  | .constant c => .ok [.load c.value]
  | .symbol name =>
    match slot name with
    | some index => .ok [.argument index]
    | none => .error (.unboundVariable name)
  | .neg inner => do return (← inner.instructions slot) ++ [.neg]
  | .binary op left right => do
    return (← left.instructions slot) ++ (← right.instructions slot) ++ [.binary op]
  | .call name argument =>
    match Builtin.ofName? name with
    | some f => do return (← argument.instructions slot) ++ [.apply f]
    | none => .error (.unsupportedFunction name)
  | .marker inner => .error (.unexpandedMarker inner)
  | .assign _ _ => .error .assignment

/-- The program that computes an expression, given the argument of each variable. -/
def compile (slot : String → Option Nat) (e : Expr α) :
    Except (FormulaError α) (Program α) := do
  return .ofCode (← e.instructions slot)

end Expr

/-! ## Formulas and their arguments

A formula is an expression that can be evaluated: all of its functions are in the table, and it
has neither markers nor assignments.  Its arguments are its variables in the order of their first
occurrence.  A formula is evaluated by walking over the tree or by running a program that was
compiled once; the value is the same.
-/

/-- The ways to evaluate a formula. -/
inductive Evaluator where
  | interpreted
  | compiled
deriving DecidableEq, Repr

/-- How an evaluator is named in settings. -/
def Evaluator.name : Evaluator → String
  | .interpreted => "interpreted"
  | .compiled => "bytecode"

/-- The evaluator with this name. -/
def Evaluator.ofName? (name : String) : Option Evaluator :=
  [Evaluator.interpreted, .compiled].find? fun kind => kind.name = name

/-- What a formula is evaluated by. -/
inductive Backend (ν : Type) where
  | tree
  | program (p : Program ν)
deriving Repr

/-- An expression that can be evaluated, with the order of its arguments. -/
structure Formula (ν : Type) where
  expression : Expr ν
  /-- Its variables, each once, in the order of their first occurrence. -/
  parameters : List String
  backend : Backend ν
deriving Repr

/-- Values for names, each name at most once, in the order in which the names came. -/
structure Bindings (α : Type) where
  entries : List (String × α)

namespace Bindings

variable {α : Type}

/-- The names that have a value. -/
def names (b : Bindings α) : List String := b.entries.map (·.1)

/-- Gives a name a value; a name that has one keeps its place. -/
def put (b : Bindings α) (entry : String × α) : Bindings α :=
  if entry.1 ∈ b.names then
    ⟨b.entries.map fun old => if old.1 = entry.1 then entry else old⟩
  else ⟨b.entries ++ [entry]⟩

/-- The bindings of a row of pairs; of two values for one name the later counts. -/
def ofList (pairs : List (String × α)) : Bindings α := pairs.foldl put ⟨[]⟩

/-- The value of a name. -/
def get? (b : Bindings α) (name : String) : Option α := b.entries.lookup name

end Bindings

/-- Finds the first fault, the outer before the inner and the left before the right, that keeps
an expression from being evaluated. -/
def Expr.check {ν : Type} : Expr ν → Except (FormulaError ν) Unit
  | .number _ | .constant _ | .symbol _ => .ok ()
  | .neg inner => inner.check
  | .binary _ left right => do
    left.check
    right.check
  | .call name argument =>
    match Builtin.ofName? name with
    | some _ => argument.check
    | none => .error (.unsupportedFunction name)
  | .marker inner => .error (.unexpandedMarker inner)
  | .assign _ _ => .error .assignment

namespace Formula

variable {α : Type}

/-- The place of a variable among the arguments. -/
def slot? (f : Formula α) (name : String) : Option Nat := f.parameters.idxOf? name

/-- The evaluator of a formula. -/
def evaluator (f : Formula α) : Evaluator :=
  match f.backend with
  | .tree => .interpreted
  | .program _ => .compiled

variable [Elementary α]

/-- The formula of an expression, if it can be evaluated. -/
def build (evaluator : Evaluator) (e : Expr α) : Except (FormulaError α) (Formula α) := do
  e.check
  let parameters := e.freeVariables
  match evaluator with
  | .interpreted => return ⟨e, parameters, .tree⟩
  | .compiled => return ⟨e, parameters, .program (← e.compile parameters.idxOf?)⟩

variable [Arithmetic α]

/-- The value of a formula whose arguments are given by their places. -/
def valueAt (f : Formula α) (args : Nat → α) : α :=
  match f.backend with
  | .tree =>
    f.expression.value fun name =>
      match f.slot? name with
      | some index => args index
      | none => Elementary.undefined
  | .program p => (p.run args).1

/-- The value of a formula at a row of arguments. -/
def evaluate (f : Formula α) (values : List α) : Except EvaluationError α :=
  if values.length ≠ f.parameters.length then
    .error (.arity f.parameters.length values.length)
  else .ok (f.valueAt fun index => values.getD index Elementary.undefined)

/-- The variables that have no value. -/
def missing (f : Formula α) (b : Bindings α) : List String :=
  f.parameters.filter fun name => !b.names.contains name

/-- The names that have a value and are no variables, sorted. -/
def unexpected (f : Formula α) (b : Bindings α) : List String :=
  (b.names.filter fun name => !f.parameters.contains name).mergeSort fun a b => decide (a ≤ b)

/-- The value of a formula at arguments given by name.  Exactly the variables must be named. -/
def evaluateNamed (f : Formula α) (b : Bindings α) : Except EvaluationError α :=
  if f.missing b ≠ [] ∨ f.unexpected b ≠ [] then
    .error (.bindings (f.missing b) (f.unexpected b))
  else
    .ok (f.valueAt fun index =>
      (f.parameters[index]?.bind b.get?).getD Elementary.undefined)

end Formula

end Fluxion
