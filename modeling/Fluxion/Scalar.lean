/-!
# Scalars

Everything in this library that computes a number is written over an arbitrary type of
scalars.  The programs run on binary64 numbers; statements about exact arithmetic read the
same definitions over a field.  What a definition needs of its scalars is said by the classes
below: the four operations with whole numbers (`Arithmetic`), the constants and functions that
an expression may name (`Elementary`), and the test that tells numbers from infinities and
from the result of an undefined operation (`Finiteness`).
-/

set_option autoImplicit false

namespace Fluxion

/-- The four operations, the sign and the whole numbers. -/
class abbrev Arithmetic (α : Type) := Add α, Sub α, Mul α, Div α, Neg α, NatCast α

/-- The constants and the functions of one real variable that an expression may name, together
with the general power. -/
class Elementary (α : Type) where
  pi : α
  /-- The base of the natural logarithm. -/
  euler : α
  /-- The general power, base first. -/
  power : α → α → α
  sin : α → α
  cos : α → α
  tan : α → α
  exp : α → α
  ln : α → α
  /-- The logarithm to base ten. -/
  log10 : α → α
  undefined : α

/-- Tells the scalars that are numbers from those that are not. -/
class Finiteness (α : Type) where
  isFinite : α → Bool

/-- A whole number stands for the nearest binary64 number. -/
instance natCastFloat : NatCast Float := ⟨Float.ofNat⟩

/-- The constants and functions of binary64 numbers. -/
instance : Elementary Float where
  pi := 3.141592653589793
  euler := 2.718281828459045
  power := Float.pow
  sin := Float.sin
  cos := Float.cos
  tan := Float.tan
  exp := Float.exp
  ln := Float.log
  log10 := Float.log10
  undefined := 0.0 / 0.0

/-- Infinities and results of undefined operations are not finite. -/
instance : Finiteness Float := ⟨Float.isFinite⟩

section

variable {α : Type} [NatCast α]

/-- The whole number zero. -/
abbrev zero : α := ((0 : Nat) : α)

/-- The whole number one. -/
abbrev one : α := ((1 : Nat) : α)

/-- The whole number two. -/
abbrev two : α := ((2 : Nat) : α)

variable [LT α] [Finiteness α]

/-- Holds of a number above zero: what a step, an increment or a tolerance has to be. -/
def IsPositive (x : α) : Prop :=
  zero < x ∧ Finiteness.isFinite x = true

/-- Whether a number is positive and finite can be computed. -/
instance [DecidableLT α] (x : α) : Decidable (IsPositive x) :=
  inferInstanceAs (Decidable (_ ∧ _))

end

section

variable {α : Type} [Arithmetic α]

/-- Repeated squaring over the binary digits of the exponent: `acc` holds the powers taken so
far and `square` the next one on offer. -/
def powerLoop (acc square : α) (n : Nat) : α :=
  let acc := if n % 2 = 1 then acc * square else acc
  if n / 2 = 0 then acc else powerLoop acc (square * square) (n / 2)
termination_by n
decreasing_by omega

/-- A scalar to a whole power, by repeated squaring from one. -/
def wholePower (base : α) (n : Nat) : α :=
  powerLoop one base n

/-- A scalar to a power that may be negative, which is then one divided by the power to the
opposite exponent. -/
def signedPower (base : α) (n : Int) : α :=
  let size := wholePower base n.natAbs
  if n < 0 then one / size else size

end

end Fluxion
