/-!
# Decimal numbers

Reading a decimal numeral gives the nearest binary64 number, and writing a binary64 number gives
the shortest numeral that reads back to it.  Both happen on natural numbers: a pattern of bits and
a whole number of some power of ten.
-/

set_option autoImplicit false

namespace Fluxion.Decimal

/-! ## From decimals to binary64

A decimal numeral names a rational number, and reading it means taking the binary64 number
nearest to that rational, the one with the even significand when two are equally near.  All of
it happens on natural numbers.  Every binary64 number is a whole multiple of `2 ^ (-1074)`, so
the rational is first measured in that unit; its binary length then says how many low places
are dropped, and one rounded quotient gives the significand.  The pattern of bits is the
significand plus the number of dropped places in the field above it: a carry out of the
significand moves into that field, which is exactly what rounding up to the next power of two
should do.
-/

/-- The quotient rounded to the nearest natural number; a half goes to the even neighbour. -/
def divideToEven (num den : Nat) : Nat :=
  let quotient := num / den
  let twice := 2 * (num % den)
  if twice < den ∨ (twice = den ∧ quotient % 2 = 0) then quotient else quotient + 1

/-- The number of places below the units of the significand. -/
def subnormalPlaces : Nat := 1074

/-- The width of the stored significand. -/
def significandBits : Nat := 52

/-- The pattern of positive infinity, which follows that of the largest number. -/
def infinityPattern : Nat := 2047 * Nat.pow 2 significandBits

/-- The low places that do not fit the significand of a value measured in the least unit. -/
def droppedPlaces (units : Nat) : Nat :=
  units.log2 - significandBits

/-- The pattern of the number nearest to `num / den`. -/
def nearestPattern (num den : Nat) : Nat :=
  let scaled := num * Nat.pow 2 subnormalPlaces
  let dropped := droppedPlaces (scaled / den)
  let significand := divideToEven scaled (den * Nat.pow 2 dropped)
  min (dropped * Nat.pow 2 significandBits + significand) infinityPattern

/-- The binary64 number that a pattern of bits stands for. -/
def ofPattern (pattern : Nat) : Float :=
  Float.ofBits (UInt64.ofNat pattern)

/-- The binary64 number nearest to the quotient of two natural numbers. -/
def nearest (num den : Nat) : Float :=
  ofPattern (nearestPattern num den)

/-- The pattern of a number's absolute value. -/
def magnitudePattern (x : Float) : Nat :=
  x.toBits.toNat % Nat.pow 2 63

/-- Whether the sign of a number, zeros included, is negative. -/
def isNegative (x : Float) : Bool :=
  decide (Nat.pow 2 63 ≤ x.toBits.toNat)

/-- The low places dropped from the number with this pattern. -/
def patternPlaces (pattern : Nat) : Nat :=
  pattern / Nat.pow 2 significandBits - 1

/-- The significand of the number with this pattern: the number is the significand times
`2 ^ patternPlaces`, measured in the least unit. -/
def patternSignificand (pattern : Nat) : Nat :=
  pattern - patternPlaces pattern * Nat.pow 2 significandBits

/-! ## Decimal numerals

A numeral is a whole number of some power of ten.  Reading one gives the nearest binary64
number; writing a finite binary64 number selects the numeral with the fewest digits that reads
back to it, the nearer of two with that many digits, and the larger of two equally near.

The selection tries the grids of one, two, and up to seventeen digits.  On each grid only the
two neighbours of the value can read back, and each is tested by reading it.  A number for which
no grid answers is written out exactly; so whatever is written, reading it gives the number
that was written.
-/

/-- The number `digits * 10 ^ exponent`. -/
structure Numeral where
  digits : Nat
  /-- The power of ten that a unit of the last digit stands for. -/
  exponent : Int
deriving DecidableEq, Repr

/-- The numerator of a numeral as a quotient of natural numbers. -/
def Numeral.numerator (d : Numeral) : Nat := d.digits * Nat.pow 10 d.exponent.toNat

/-- The denominator of a numeral as a quotient of natural numbers. -/
def Numeral.denominator (d : Numeral) : Nat := Nat.pow 10 (-d.exponent).toNat

/-- The numeral that is written as digits with at most one point before, between or behind them. -/
def Numeral.ofText? (text : List Char) : Option Numeral :=
  let whole := text.takeWhile Char.isDigit
  let tail := text.dropWhile Char.isDigit
  let fraction := tail.drop 1
  let digits := whole ++ fraction
  if digits ≠ [] ∧ digits.all Char.isDigit = true ∧ (tail = [] ∨ tail.head? = some '.') then
    some ⟨Nat.ofDigitChars 10 digits 0, -(fraction.length : Int)⟩
  else none

/-- The pattern of the binary64 number nearest to a numeral. -/
def Numeral.pattern (d : Numeral) : Nat :=
  nearestPattern d.numerator d.denominator

/-- The binary64 number nearest to a numeral. -/
def Numeral.toFloat (d : Numeral) : Float := ofPattern d.pattern

/-- An exponent beyond which every numeral is infinite or zero, whatever its digits say after
their own length is taken off. -/
def exponentBound : Int := 2048

/-- The value of a numeral whose exponent may be of any size: far above the largest number it is
infinite and far below the least one it is zero, and neither needs the power of ten. -/
def Numeral.toFloatBounded (d : Numeral) : Float :=
  if d.digits = 0 then ofPattern 0
  else if exponentBound < d.exponent then ofPattern infinityPattern
  else if d.exponent < -(exponentBound + d.digits.log2) then ofPattern 0
  else d.toFloat

/-- Moves trailing zeros of the digits into the exponent, at most as many as `bound`. -/
def stripZeros (bound : Nat) (d : Numeral) : Numeral :=
  match bound with
  | 0 => d
  | bound + 1 =>
    if d.digits ≠ 0 ∧ d.digits % 10 = 0 then
      stripZeros bound ⟨d.digits / 10, d.exponent + 1⟩
    else d

/-- The numeral without trailing zeros that names the same number. -/
def Numeral.canonical (d : Numeral) : Numeral := stripZeros d.digits.log2 d

/-- The exact value of the number with this pattern. -/
def exactNumeral (pattern : Nat) : Numeral :=
  ⟨patternSignificand pattern * Nat.pow 2 (patternPlaces pattern) * Nat.pow 5 subnormalPlaces,
    -(subnormalPlaces : Int)⟩

/-- The number with this pattern as a quotient of natural numbers: the numerator. -/
def patternNumerator (pattern : Nat) : Nat :=
  patternSignificand pattern * Nat.pow 2 (patternPlaces pattern - subnormalPlaces)

/-- The number with this pattern as a quotient of natural numbers: the denominator. -/
def patternDenominator (pattern : Nat) : Nat :=
  Nat.pow 2 (subnormalPlaces - patternPlaces pattern)

/-- The number of decimal places in front of the point: the least `k`, among the four around an
estimate from the binary length, with the number below `10 ^ k`. -/
def decimalPlaces (pattern : Nat) : Int :=
  let length : Int :=
    (patternSignificand pattern).log2 + patternPlaces pattern - subnormalPlaces
  let estimate := length * 1233 / 4096 - 1
  let below (k : Int) : Bool :=
    patternNumerator pattern * Nat.pow 10 (-k).toNat
      < patternDenominator pattern * Nat.pow 10 k.toNat
  let candidates := [estimate, estimate + 1, estimate + 2]
  (candidates.find? below).getD (estimate + 3)

/-- The neighbours of a number on the grid of multiples of `10 ^ exponent`, one of them chosen
if it reads back: the nearer if both do, and the upper if both do and are equally near. -/
def neighbourOnGrid (pattern : Nat) (exponent : Int) : Option Numeral :=
  let num := patternNumerator pattern * Nat.pow 10 (-exponent).toNat
  let den := patternDenominator pattern * Nat.pow 10 exponent.toNat
  let lower : Numeral := ⟨num / den, exponent⟩
  let upper : Numeral := ⟨num / den + 1, exponent⟩
  if lower.pattern = pattern then
    if upper.pattern = pattern ∧ den ≤ 2 * (num % den) then some upper else some lower
  else if upper.pattern = pattern then some upper
  else none

/-- The most digits that are tried before a number is written out exactly. -/
def digitLimit : Nat := 17

/-- The numeral with the fewest digits that reads back to the number with this pattern.  Zero,
which has no leading digit, is written as the digit zero. -/
def shortest (pattern : Nat) : Numeral :=
  if pattern = 0 then ⟨0, 0⟩
  else
    let places := decimalPlaces pattern
    let found := (List.range digitLimit).findSome? fun n =>
      neighbourOnGrid pattern (places - (n + 1 : Nat))
    (found.getD (exactNumeral pattern)).canonical

/-! ## How numbers are written

Three notations share one selection of digits.  In an expression and in a sentence a number is
written positionally, whatever its size, so that the text can be read back as an expression.  In
a table it is written with one digit before the point and an exponent.  A list of values in a
log record is positional with a fractional part that is never left out, and uses the exponent
for very large and very small numbers.
-/

/-- The digits of a natural number, most significant first. -/
def digitsOf (n : Nat) : List Char := Nat.toDigits 10 n

/-- Positional notation: the point is set inside the digits or zeros are put where digits are
missing, and a whole number has neither point nor fraction. -/
def Numeral.positional (d : Numeral) : List Char :=
  let digits := digitsOf d.digits
  if 0 ≤ d.exponent then digits ++ List.replicate d.exponent.toNat '0'
  else
    let places := (-d.exponent).toNat
    let padded := List.replicate (places + 1 - digits.length) '0' ++ digits
    padded.take (padded.length - places) ++ '.' :: padded.drop (padded.length - places)

/-- The power of ten of the leading digit. -/
def Numeral.order (d : Numeral) : Int :=
  d.exponent + (digitsOf d.digits).length - 1

/-- A whole number in decimal digits. -/
def integerText (n : Int) : List Char :=
  match n with
  | .ofNat n => digitsOf n
  | .negSucc n => '-' :: digitsOf (n + 1)

/-- One digit, a point and the other digits if there are any, and the exponent. -/
def Numeral.scientific (d : Numeral) : List Char :=
  let fraction := (digitsOf d.digits).drop 1
  (digitsOf d.digits).take 1 ++ (if fraction = [] then [] else '.' :: fraction)
    ++ 'e' :: integerText d.order

/-- Puts the sign in front of a number's digits and names the values that have none. -/
def signed (write : Nat → List Char) (x : Float) : String :=
  if x.isNaN then "NaN"
  else
    let pattern := magnitudePattern x
    let digits := if pattern = infinityPattern then ['i', 'n', 'f'] else write pattern
    String.ofList (if isNegative x then '-' :: digits else digits)

/-- The digits of a number as an expression holds them. -/
def plainDigits (pattern : Nat) : List Char := (shortest pattern).positional

/-- The notation of expressions and messages: positional, the fewest digits that read back, a
minus sign also before zero. -/
def plain (x : Float) : String := signed plainDigits x

/-- The notation of tables: one digit before the point, then the exponent. -/
def scientific (x : Float) : String := signed (fun pattern => (shortest pattern).scientific) x

/-- Whether a list of values shows the number with this numeral positionally. -/
def Numeral.isModerate (d : Numeral) : Bool :=
  d.digits = 0 || (-4 ≤ d.order && d.order < 16)

/-- The digits of a number in a list of values. -/
def listedDigits (pattern : Nat) : List Char :=
  let d := shortest pattern
  if d.isModerate then
    if 0 ≤ d.exponent then d.positional ++ ['.', '0'] else d.positional
  else d.scientific

/-- The notation of lists of values: positional from `1e-4` up to below `1e16` and with a
fraction also for whole numbers, otherwise with an exponent. -/
def listed (x : Float) : String := signed listedDigits x

end Fluxion.Decimal
