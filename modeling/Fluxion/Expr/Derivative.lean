import Fluxion.Scalar
import Fluxion.Expr.Basic

/-!
# Symbolic derivatives

The derivative of an expression with respect to one of its variables, by the rules for sums,
products, quotients, powers and the functions of the table.  Nothing is simplified.  The rule
for a power depends on which operands the variable occurs in: if not in the exponent, the power
rule; if not in the base, the exponential rule; otherwise the rule for both.

A derivative marker stands for a derivative that has not been taken.  Expanding an expression
takes all of them, the innermost first, with respect to one variable.
-/

set_option autoImplicit false

namespace Fluxion

/-- Why an expression has no derivative. -/
inductive DerivationError (ν : Type) where
  | unsupportedFunction (name : String)
  | unexpandedMarker (inner : Expr ν)
  | assignment
deriving Repr

/-- The sentence that reports why there is no derivative. -/
def DerivationError.message : DerivationError Float → String
  | .unsupportedFunction name => "Unsupported function: " ++ name
  | .unexpandedMarker inner =>
    "Derivative marker on '" ++ inner.text ++ "' must be expanded before differentiation"
  | .assignment => "Assignments cannot be differentiated"

namespace Expr

variable {ν : Type} [NatCast ν]

/-- A whole number as a literal. -/
def ofNat (n : Nat) : Expr ν := .number (n : ν)

/-- Whether an expression cannot change with a variable: the variable does not occur in it. -/
def isIndependentOf (e : Expr ν) (name : String) : Bool := !e.mentions name

/-- The derivative of a function of the table, taken at `u`. -/
def outerDerivative (f : Builtin) (u : Expr ν) : Expr ν :=
  match f with
  | .sin => apply .cos u
  | .cos => .neg (apply .sin u)
  | .tan => .binary .div (ofNat 1) (.binary .pow (apply .cos u) (ofNat 2))
  | .cot => .neg (.binary .div (ofNat 1) (.binary .pow (apply .sin u) (ofNat 2)))
  | .exp => apply .exp u
  | .ln => .binary .div (ofNat 1) u
  | .log => .binary .div (ofNat 1) (.binary .mul u (apply .ln (ofNat 10)))

/-- The derivative `f' g + f g'` of a product. -/
def productRule (f f' g g' : Expr ν) : Expr ν :=
  .binary .add (.binary .mul f' g) (.binary .mul f g')

/-- The derivative `(f' g - f g') / g ^ 2` of a quotient. -/
def quotientRule (f f' g g' : Expr ν) : Expr ν :=
  .binary .div (.binary .sub (.binary .mul f' g) (.binary .mul f g'))
    (.binary .pow g (ofNat 2))

/-- The derivative `g * f ^ (g - 1) * f'` of a power with a constant exponent. -/
def powerRule (f f' g : Expr ν) : Expr ν :=
  .binary .mul (.binary .mul g (.binary .pow f (.binary .sub g (ofNat 1)))) f'

/-- The derivative `f ^ g * ln(f) * g'` of a power with a constant base. -/
def exponentialRule (f g g' : Expr ν) : Expr ν :=
  .binary .mul (.binary .mul (.binary .pow f g) (apply .ln f)) g'

/-- The derivative `f ^ g * (f' * (g / f) + g' * ln(f))` of any power. -/
def generalPowerRule (f f' g g' : Expr ν) : Expr ν :=
  .binary .mul (.binary .pow f g)
    (.binary .add (.binary .mul f' (.binary .div g f)) (.binary .mul g' (apply .ln f)))

/-- The derivative of an expression with respect to a variable.  The operands that a rule does
not need are not differentiated, so they cannot make it fail. -/
def derivative (name : String) : Expr ν → Except (DerivationError ν) (Expr ν)
  | .number _ | .constant _ => .ok (ofNat 0)
  | .symbol own => .ok (ofNat (if own = name then 1 else 0))
  | .neg inner => do return .neg (← inner.derivative name)
  | .binary .add f g => do return .binary .add (← f.derivative name) (← g.derivative name)
  | .binary .sub f g => do return .binary .sub (← f.derivative name) (← g.derivative name)
  | .binary .mul f g => do return productRule f (← f.derivative name) g (← g.derivative name)
  | .binary .div f g => do return quotientRule f (← f.derivative name) g (← g.derivative name)
  | .binary .pow f g =>
    if g.isIndependentOf name then do return powerRule f (← f.derivative name) g
    else if f.isIndependentOf name then do return exponentialRule f g (← g.derivative name)
    else do return generalPowerRule f (← f.derivative name) g (← g.derivative name)
  | .call f argument =>
    match Builtin.ofName? f with
    | none => .error (.unsupportedFunction f)
    | some f => do return .binary .mul (outerDerivative f argument) (← argument.derivative name)
  | .marker inner => .error (.unexpandedMarker inner)
  | .assign _ _ => .error .assignment

/-- Takes every marked derivative with respect to one variable, the innermost first.  The target
of an assignment is left as it is. -/
def expandMarkers (name : String) : Expr ν → Except (DerivationError ν) (Expr ν)
  | .number x => .ok (.number x)
  | .constant c => .ok (.constant c)
  | .symbol own => .ok (.symbol own)
  | .neg inner => do return .neg (← inner.expandMarkers name)
  | .binary op left right => do
    return .binary op (← left.expandMarkers name) (← right.expandMarkers name)
  | .call f argument => do return .call f (← argument.expandMarkers name)
  | .marker inner => do derivative name (← inner.expandMarkers name)
  | .assign target value => do return .assign target (← value.expandMarkers name)

end Expr

end Fluxion
