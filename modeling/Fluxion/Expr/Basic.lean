import Fluxion.Decimal
import Fluxion.Scalar

/-!
# Expressions

The tree of an expression, its text and its value.
-/

set_option autoImplicit false

namespace Fluxion

/-! ## Trees

The tree of an expression: numbers, the two named constants, variables, the sign, the five
binary operators, calls of a function by name, the derivative marker and, inside a chain of
assignments only, an assignment.  The type of the numbers is a parameter, so that the same tree
can hold binary64 literals or elements of a field.

A call keeps the name that was written.  Whether the name belongs to the closed table of
functions is asked only when the expression is evaluated, compiled or differentiated.
-/

/-- The named constants. -/
inductive Constant where
  | pi
  | euler
deriving DecidableEq, Repr

/-- How a constant is written. -/
def Constant.name : Constant → String
  | .pi => "pi"
  | .euler => "e"

/-- The constant with this name, if there is one. -/
def Constant.ofName? (name : String) : Option Constant :=
  if name = "pi" then some .pi else if name = "e" then some .euler else none

/-- The binary operators. -/
inductive Operator where
  | add
  | sub
  | mul
  | div
  | pow
deriving DecidableEq, Repr

/-- How an operator is written. -/
def Operator.symbol : Operator → Char
  | .add => '+'
  | .sub => '-'
  | .mul => '*'
  | .div => '/'
  | .pow => '^'

/-- How tightly an operator binds; the power binds most tightly. -/
def Operator.precedence : Operator → Nat
  | .add | .sub => 1
  | .mul | .div => 2
  | .pow => 3

/-- The closed table of functions. -/
inductive Builtin where
  | sin
  | cos
  | tan
  | cot
  | exp
  | ln
  | log
deriving DecidableEq, Repr

/-- How a function is written; `log` is the logarithm to base ten and `ln` the natural one. -/
def Builtin.name : Builtin → String
  | .sin => "sin"
  | .cos => "cos"
  | .tan => "tan"
  | .cot => "cot"
  | .exp => "exp"
  | .ln => "ln"
  | .log => "log"

/-- Every function, in the order of the table. -/
def Builtin.all : List Builtin := [.sin, .cos, .tan, .cot, .exp, .ln, .log]

/-- The function with this name, if the table has it. -/
def Builtin.ofName? (name : String) : Option Builtin :=
  Builtin.all.find? fun f => f.name = name

/-- The tree of an expression whose numbers are of type `ν`. -/
inductive Expr (ν : Type) where
  | number (value : ν)
  | constant (which : Constant)
  | symbol (name : String)
  | neg (inner : Expr ν)
  | binary (op : Operator) (left right : Expr ν)
  /-- A function, by name, applied to one argument. -/
  | call (function : String) (argument : Expr ν)
  | marker (inner : Expr ν)
  | assign (target value : Expr ν)
deriving BEq, Repr

namespace Expr

variable {ν μ : Type}

/-- The same tree with every number replaced. -/
def map (f : ν → μ) : Expr ν → Expr μ
  | .number x => .number (f x)
  | .constant c => .constant c
  | .symbol name => .symbol name
  | .neg inner => .neg (inner.map f)
  | .binary op left right => .binary op (left.map f) (right.map f)
  | .call g argument => .call g (argument.map f)
  | .marker inner => .marker (inner.map f)
  | .assign target value => .assign (target.map f) (value.map f)

/-- The call of a function of the table. -/
def apply (f : Builtin) (argument : Expr ν) : Expr ν := .call f.name argument

/-- Every occurrence of a variable, from left to right. -/
def occurrences : Expr ν → List String
  | .number _ | .constant _ => []
  | .symbol name => [name]
  | .neg inner | .call _ inner | .marker inner => inner.occurrences
  | .binary _ left right | .assign left right => left.occurrences ++ right.occurrences

/-- Adds a name at the end of a list unless it is there already. -/
def addName (names : List String) (name : String) : List String :=
  if name ∈ names then names else names ++ [name]

/-- The variables of an expression, each once, in the order of their first occurrence. -/
def freeVariables (e : Expr ν) : List String :=
  e.occurrences.foldl addName []

/-- Whether a variable occurs in an expression. -/
def mentions (name : String) : Expr ν → Bool
  | .number _ | .constant _ => false
  | .symbol own => own == name
  | .neg inner | .call _ inner | .marker inner => inner.mentions name
  | .binary _ left right | .assign left right => left.mentions name || right.mentions name

/-- Whether an expression has a derivative marker anywhere. -/
def hasMarker : Expr ν → Bool
  | .number _ | .constant _ | .symbol _ => false
  | .marker _ => true
  | .neg inner | .call _ inner => inner.hasMarker
  | .binary _ left right | .assign left right => left.hasMarker || right.hasMarker

/-- Whether an expression is a variable under any number of markers, which is what may stand
to the left of an assignment. -/
def isTarget : Expr ν → Bool
  | .symbol _ => true
  | .marker inner => inner.isTarget
  | _ => false

end Expr

/-- One statement: a bare expression, or an assignment to a target. -/
inductive Statement (ν : Type) where
  | expression (e : Expr ν)
  | assignment (target value : Expr ν)
deriving BEq, Repr

/-- The right-hand side of an assignment, and the whole of a bare expression. -/
def Statement.value {ν : Type} : Statement ν → Expr ν
  | .expression e => e
  | .assignment _ value => value

/-! ## The text of an expression

Trees are written with as few parentheses as the grammar allows.  Operators of one level group
to the left, so a left operand is enclosed only if it binds less tightly than the operator and a
right operand also if it binds equally tightly.  The sign takes an atom: anything that binds
less tightly is enclosed, and so is a literal, which would otherwise be read as a negative
number.
-/

/-- The mark of a derivative. -/
def apostrophe : Char := '\x27'

/-- How tightly atoms bind. -/
def atomPrecedence : Nat := 5

/-- How tightly a signed factor binds. -/
def factorPrecedence : Nat := 4

namespace Expr

/-- How tightly the outermost part of an expression binds: assignments least, then sums,
products, powers, signed factors, atoms.  A negative number is a signed factor. -/
def precedence : Expr Float → Nat
  | .assign _ _ => 0
  | .binary op _ _ => op.precedence
  | .neg _ => factorPrecedence
  | .number x => if x < 0.0 then factorPrecedence else atomPrecedence
  | .constant _ | .symbol _ | .call _ _ | .marker _ => atomPrecedence

/-- Whether an expression is a literal. -/
def isNumber {ν : Type} : Expr ν → Bool
  | .number _ => true
  | _ => false

/-- Puts parentheses around a text if asked to. -/
def enclose (needed : Bool) (text : List Char) : List Char :=
  if needed then '(' :: text ++ [')'] else text

/-- Whether an expression needs parentheses behind a sign. -/
def needsParensUnderSign (e : Expr Float) : Bool :=
  e.precedence < atomPrecedence || e.isNumber

/-- The characters of an expression. -/
def render : Expr Float → List Char
  | .number x => (Decimal.plain x).toList
  | .constant c => c.name.toList
  | .symbol name => name.toList
  | .neg inner => '-' :: enclose inner.needsParensUnderSign inner.render
  | .binary op left right =>
    enclose (left.precedence < op.precedence) left.render ++ [' ', op.symbol, ' ']
      ++ enclose (right.precedence < op.precedence + 1) right.render
  | .call f argument => f.toList ++ '(' :: argument.render ++ [')']
  | .marker inner => inner.render ++ [apostrophe]
  | .assign target value => target.render ++ [' ', '=', ' '] ++ value.render

/-- The text of an expression. -/
def text (e : Expr Float) : String := String.ofList e.render

end Expr

/-- The characters of a statement. -/
def Statement.render : Statement Float → List Char
  | .expression e => e.render
  | .assignment target value => target.render ++ [' ', '=', ' '] ++ value.render

/-- The text of a statement. -/
def Statement.text (s : Statement Float) : String := String.ofList s.render

/-! ## The value of an expression

An expression has a value once its variables have one.  The value is compositional: that of an
operator is computed from the values of its operands, left before right.  What has no value, a
function outside the table, a marker or an assignment, gets the undefined scalar.
-/

section

variable {α : Type} [Elementary α]

/-- The value of a named constant. -/
def Constant.value : Constant → α
  | .pi => Elementary.pi
  | .euler => Elementary.euler

variable [Arithmetic α]

/-- The operation that an operator stands for. -/
def Operator.apply (op : Operator) (a b : α) : α :=
  match op with
  | .add => a + b
  | .sub => a - b
  | .mul => a * b
  | .div => a / b
  | .pow => Elementary.power a b

/-- The operation that a function stands for; the cotangent is the reciprocal of the tangent. -/
def Builtin.apply (f : Builtin) (x : α) : α :=
  match f with
  | .sin => Elementary.sin x
  | .cos => Elementary.cos x
  | .tan => Elementary.tan x
  | .cot => one / Elementary.tan x
  | .exp => Elementary.exp x
  | .ln => Elementary.ln x
  | .log => Elementary.log10 x

/-- The value of a call by name. -/
def callValue (name : String) (x : α) : α :=
  match Builtin.ofName? name with
  | some f => f.apply x
  | none => Elementary.undefined

/-- The value of an expression under an assignment of values to the variables. -/
def Expr.value (env : String → α) : Expr α → α
  | .number x => x
  | .constant c => c.value
  | .symbol name => env name
  | .neg inner => -inner.value env
  | .binary op left right => op.apply (left.value env) (right.value env)
  | .call name argument => callValue name (argument.value env)
  | .marker _ | .assign _ _ => Elementary.undefined

end

end Fluxion
