import Fluxion.Decimal
import Fluxion.Document.Table
import Fluxion.Scalar

/-!
# Bare values

The values of a document that stand without marks around them: the two truth values, whole
numbers in four radices, and numbers with a fraction or an exponent.  In every row of digits a
single underscore may stand between two digits.
-/

set_option autoImplicit false

namespace Fluxion.Document

/-- The value of a digit of a radix up to sixteen. -/
def digitValue? (radix : Nat) (c : Char) : Option Nat :=
  let value :=
    if c.isDigit then c.toNat - '0'.toNat
    else if 'a' ≤ c ∧ c ≤ 'f' then c.toNat - 'a'.toNat + 10
    else if 'A' ≤ c ∧ c ≤ 'F' then c.toNat - 'A'.toNat + 10
    else radix
  if value < radix then some value else none

/-- Reads on in a row of digits that has the value `value` so far and ends with a digit or with
an underscore. -/
def digitsFrom? (radix : Nat) (afterDigit : Bool) (value : Nat) : List Char → Option Nat
  | [] => if afterDigit then some value else none
  | c :: rest =>
    if c = '_' then
      if afterDigit then digitsFrom? radix false value rest else none
    else do
      let digit ← digitValue? radix c
      digitsFrom? radix true (radix * value + digit) rest

/-- The value of a row of digits. -/
def digits? (radix : Nat) (row : List Char) : Option Nat := digitsFrom? radix false 0 row

/-- The value of a row of decimal digits without a zero in front of another digit. -/
def plainDigits? (row : List Char) : Option Nat :=
  match row with
  | '0' :: _ :: _ => none
  | _ => digits? 10 row

/-- A word without its sign, and whether the sign was negative. -/
def unsigned (word : List Char) : Bool × List Char :=
  match word with
  | '+' :: rest => (false, rest)
  | '-' :: rest => (true, rest)
  | _ => (false, word)

/-- The part of a word before the first character that separates, and the part behind it if
there is such a character. -/
def cut (separates : Char → Bool) (word : List Char) : List Char × Option (List Char) :=
  let before := word.takeWhile fun c => !separates c
  match word.dropWhile fun c => !separates c with
  | [] => (before, none)
  | _ :: behind => (before, some behind)

/-- The least and the greatest whole number that can be read. -/
def integerBounds : Int × Int := (-(Nat.pow 2 127 : Nat), (Nat.pow 2 128 : Nat) - 1)

/-- A whole number, if it can be read. -/
def ofInteger (n : Int) : Document :=
  if integerBounds.1 ≤ n ∧ n ≤ integerBounds.2 then .integer n else .unreadable

/-- The radix that two leading characters announce. -/
def radix? (mark : Char) : Option Nat :=
  if mark = 'x' then some 16
  else if mark = 'o' then some 8
  else if mark = 'b' then some 2
  else none

/-- A whole number in decimal digits, with or without a sign, or without one in another radix. -/
def integer? (word : List Char) : Option Document :=
  match word with
  | '0' :: mark :: row => do
    let radix ← radix? mark
    let value ← digits? radix row
    return ofInteger value
  | _ => do
    let (isNegative, row) := unsigned word
    let value : Int ← plainDigits? row
    return ofInteger (if isNegative then -value else value)

/-- A decimal exponent: digits with or without a sign. -/
def exponent? (word : List Char) : Option Int := do
  let (isNegative, row) := unsigned word
  let value : Int ← digits? 10 row
  return if isNegative then -value else value

/-- The number of digits in a row. -/
def digitCount (row : List Char) : Nat := row.countP fun c => c ≠ '_'

/-- The numeral of an unsigned number with a fraction, an exponent, or both. -/
def numeral? (row : List Char) : Option Decimal.Numeral := do
  let (mantissa, power) := cut (fun c => c = 'e' || c = 'E') row
  let (whole, fraction) := cut (fun c => c = '.') mantissa
  let wholeValue ← plainDigits? whole
  let exponent ← (power.map exponent?).getD (some 0)
  match fraction with
  | none => if power.isNone then none else return ⟨wholeValue, exponent⟩
  | some places => do
    let fractionValue ← digits? 10 places
    let count := digitCount places
    return ⟨wholeValue * Nat.pow 10 count + fractionValue, exponent - count⟩

/-- A number with a fraction or an exponent, infinity, or no number.  A numeral that is larger
than every number cannot be read. -/
def real? (word : List Char) : Option Document := do
  let (isNegative, row) := unsigned word
  let signed (x : Float) : Float := if isNegative then -x else x
  if row = ['i', 'n', 'f'] then
    return .real (signed (Decimal.ofPattern Decimal.infinityPattern))
  else if row = ['n', 'a', 'n'] then
    return .real (signed Elementary.undefined)
  else
    let value := (← numeral? row).toFloatBounded
    return if Finiteness.isFinite value then .real (signed value) else .unreadable

/-- The value that a bare word stands for. -/
def ofWord? (word : List Char) : Option Document :=
  if word = ['t', 'r', 'u', 'e'] then some (.boolean true)
  else if word = ['f', 'a', 'l', 's', 'e'] then some (.boolean false)
  else integer? word <|> real? word

end Fluxion.Document
