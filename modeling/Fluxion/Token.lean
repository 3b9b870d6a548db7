import Fluxion.Decimal
import Fluxion.Scalar
import Fluxion.Text

/-!
# Tokens

A source text is cut into lexemes before it is read as a statement.  What can be wrong with a text
is said by one type of errors, whether the cutting or the reading finds it.
-/

set_option autoImplicit false

namespace Fluxion

/-! ## Errors in a source text

What can be wrong with the text of a statement, and the sentence that says so.  An error carries
the part of the text that was not understood.  When the text merely ends too early nothing is
left to show, and the sentence says that the end was not expected.
-/

/-- What is wrong with a text. -/
inductive ParseFault where
  | unrecognizedCharacter
  | malformedNumber
  | numberOutOfRange
  | emptyExpression
  | unexpectedToken
  | repeatedSign
  | negatedZero
  | missingParenthesis
  | invalidTarget
  | unexpectedAssignment
deriving DecidableEq, Repr

/-- The words for a fault. -/
def ParseFault.message : ParseFault → String
  | .unrecognizedCharacter => "Unrecognized character"
  | .malformedNumber => "Malformed number"
  | .numberOutOfRange => "Number out of range"
  | .emptyExpression => "Empty expression"
  | .unexpectedToken => "Unexpected token"
  | .repeatedSign => "Non-negated factor expected"
  | .negatedZero => "Negated zero literal is not allowed"
  | .missingParenthesis => "Missing closing parenthesis"
  | .invalidTarget => "Assignment target must be a variable"
  | .unexpectedAssignment => "Expected an expression, found an assignment"

/-- A fault, whether it was met at the end of the text, and the text from there on. -/
structure ParseError where
  fault : ParseFault
  /-- Whether the text ended where more was needed. -/
  atEnd : Bool
  remaining : List Char
deriving DecidableEq, Repr

/-- The sentence that reports an error. -/
def ParseError.message (e : ParseError) : String :=
  e.fault.message ++ (if e.atEnd then ": unexpected end of input" else "") ++ " at '"
    ++ String.ofList e.remaining ++ "'"

/-! ## Lexemes and their places

The lexemes of a source text and the places where they start, counted in bytes of UTF-8.
-/

/-- One lexeme. -/
inductive Lexeme where
  | number (value : Float)
  | identifier (name : String)
  | plus
  | minus
  | star
  | slash
  | caret
  | openParen
  | closeParen
  | equals
  | apostrophe
deriving BEq, Repr

/-- A lexeme and the offset of its first byte in the source. -/
structure Token where
  lexeme : Lexeme
  offset : Nat
deriving BEq, Repr

/-- The number of bytes of a text in UTF-8. -/
def byteLength (text : List Char) : Nat := text.foldl (fun length c => length + c.utf8Size) 0

/-- The length of a text in bytes is added up from the left. -/
theorem foldl_utf8Size (length : Nat) (text : List Char) :
    text.foldl (fun length c => length + c.utf8Size) length = length + byteLength text := by
  unfold byteLength
  induction text generalizing length with
  | nil => rfl
  | cons c text ih =>
    rw [List.foldl_cons, List.foldl_cons, ih, ih (0 + c.utf8Size)]
    omega

/-- The empty text has no bytes. -/
@[simp] theorem byteLength_nil : byteLength [] = 0 := rfl

/-- A text has the bytes of its first character and of the others. -/
@[simp] theorem byteLength_cons (c : Char) (text : List Char) :
    byteLength (c :: text) = c.utf8Size + byteLength text := by
  rw [byteLength, List.foldl_cons, foldl_utf8Size]
  omega

/-- Two texts have their bytes together. -/
@[simp] theorem byteLength_append (front text : List Char) :
    byteLength (front ++ text) = byteLength front + byteLength text := by
  rw [byteLength, List.foldl_append, foldl_utf8Size]
  rfl

/-- What is left of a text after a number of bytes that ends between two characters. -/
def dropBytes (count : Nat) (text : List Char) : List Char :=
  match text with
  | [] => []
  | c :: rest => if count = 0 then c :: rest else dropBytes (count - c.utf8Size) rest

/-- The bytes of the front of a text are dropped with it. -/
theorem dropBytes_append (front text : List Char) :
    dropBytes (byteLength front) (front ++ text) = text := by
  induction front with
  | nil => cases text <;> rfl
  | cons c front ih =>
    have hsize := Char.utf8Size_pos c
    rw [byteLength_cons, List.cons_append, dropBytes, if_neg (by omega), Nat.add_sub_cancel_left]
    exact ih

/-! ## From text to tokens

A text is a row of lexemes with blanks between them, and each lexeme is as long as it can be.  A
number is a row of digits with at most one decimal separator, a point or a comma, behind the
first of them.  An identifier is a row of ASCII letters, digits and underscores that does not
begin with a digit.  Every other lexeme is one character.
-/

/-- Whether a character separates the whole part of a number from its fraction. -/
def isSeparator (c : Char) : Bool := c = '.' || c = ','

/-- Whether an identifier may begin with a character. -/
def isIdentifierStart (c : Char) : Bool := c.isAlpha || c = '_'

/-- Whether an identifier may go on with a character. -/
def isIdentifierPart (c : Char) : Bool := c.isAlphanum || c = '_'

/-- The parts of a written number. -/
structure Literal where
  whole : List Char
  /-- The separator and the digits behind it, or nothing. -/
  tail : List Char
deriving DecidableEq, Repr

/-- The longest number at the front of a text. -/
def Literal.scan (text : List Char) : Literal :=
  let whole := text.takeWhile Char.isDigit
  match text.dropWhile Char.isDigit with
  | [] => ⟨whole, []⟩
  | c :: rest => ⟨whole, if isSeparator c then c :: rest.takeWhile Char.isDigit else []⟩

/-- The characters of a written number. -/
def Literal.text (l : Literal) : List Char := l.whole ++ l.tail

/-- A character of a written number as a numeral has it, with a point for either separator. -/
def numeralChar (c : Char) : Char := if isSeparator c then '.' else c

/-- The number that is written, if its characters are a numeral. -/
def Literal.value? (l : Literal) : Option Float :=
  (Decimal.Numeral.ofText? (l.text.map numeralChar)).map Decimal.Numeral.toFloat

/-- The lexemes of one character. -/
def Lexeme.ofChar? : Char → Option Lexeme
  | '+' => some .plus
  | '-' => some .minus
  | '*' => some .star
  | '/' => some .slash
  | '^' => some .caret
  | '(' => some .openParen
  | ')' => some .closeParen
  | '=' => some .equals
  | '\x27' => some .apostrophe
  | _ => none

/-- The longest lexeme at the front of a text that begins with `c`, and its characters. -/
def Lexeme.scan (c : Char) (rest : List Char) : Except ParseError (Lexeme × List Char) :=
  if c.isDigit then
    let literal := Literal.scan (c :: rest)
    match literal.value? with
    | none => .error ⟨.malformedNumber, false, c :: rest⟩
    | some value =>
      if Finiteness.isFinite value then .ok (.number value, literal.text)
      else .error ⟨.numberOutOfRange, false, literal.text⟩
  else if isIdentifierStart c then
    let name := c :: rest.takeWhile isIdentifierPart
    .ok (.identifier (String.ofList name), name)
  else
    match Lexeme.ofChar? c with
    | some lexeme => .ok (lexeme, [c])
    | none => .error ⟨.unrecognizedCharacter, false, c :: rest⟩

/-- The tokens of a text whose first byte has a given offset.  A lexeme has at least one
character, so the text that is left grows shorter with every token. -/
def Token.readFrom (offset : Nat) (text : List Char) : Except ParseError (List Token) :=
  match text with
  | [] => .ok []
  | c :: rest =>
    if Text.isBlank c then Token.readFrom (offset + c.utf8Size) rest
    else do
      let (lexeme, written) ← Lexeme.scan c rest
      let tokens ← Token.readFrom (offset + byteLength written) (rest.drop (written.length - 1))
      return ⟨lexeme, offset⟩ :: tokens
termination_by text.length
decreasing_by
  · simp
  · simp only [List.length_drop, List.length_cons]
    omega

/-- The tokens of a source text. -/
def Token.read (source : String) : Except ParseError (List Token) :=
  Token.readFrom 0 source.toList

end Fluxion
