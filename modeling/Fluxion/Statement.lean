import Fluxion.Expr.Basic
import Fluxion.Token

/-!
# Statements

A source text is cut into tokens and the tokens are read as one statement.  The reader is a machine
that goes through the tokens once.
-/

set_option autoImplicit false

namespace Fluxion

/-! ## Reading a statement

The grammar has five levels, from the loosest binding to the tightest: assignments, sums,
products, powers, and factors, which are atoms with or without a sign.  All operators group to
the left, and chained assignments to the right.

The reader goes through the tokens once, from left to right, and after each of them knows what
has been read: the targets of the assignments so far, the open parentheses, the left operands
that wait for their right operand, and the atom that was read last.  At most one left operand
waits on each level, because an operator first closes everything that binds at least as tightly
as itself.  A token either fits what has been read or cannot stand where it stands, whatever may
follow; so a fault is always found at the first token from which no continuation could recover.
-/

/-- The left operands that wait for their right operand, at most one on each level. -/
structure Pending where
  sum : Option (Operator × Expr Float) := none
  product : Option (Operator × Expr Float) := none
  /-- The base of a power. -/
  power : Option (Expr Float) := none

namespace Pending

/-- The power that ends with a factor. -/
def closePower (p : Pending) (factor : Expr Float) : Expr Float :=
  match p.power with
  | none => factor
  | some base => .binary .pow base factor

/-- The product that ends with a factor. -/
def closeProduct (p : Pending) (factor : Expr Float) : Expr Float :=
  match p.product with
  | none => p.closePower factor
  | some (op, left) => .binary op left (p.closePower factor)

/-- The sum that ends with a factor. -/
def closeSum (p : Pending) (factor : Expr Float) : Expr Float :=
  match p.sum with
  | none => p.closeProduct factor
  | some (op, left) => .binary op left (p.closeProduct factor)

/-- What waits once a factor is followed by an operator. -/
def extend (p : Pending) (factor : Expr Float) (op : Operator) : Pending :=
  match op with
  | .pow => { p with power := some (p.closePower factor) }
  | .mul | .div => { sum := p.sum, product := some (op, p.closeProduct factor) }
  | .add | .sub => { sum := some (op, p.closeSum factor) }

end Pending

/-- A parenthesis that has been opened, and what it interrupted. -/
structure Enclosure where
  pending : Pending
  /-- Whether a sign stands before the parenthesis, or before the name of the call. -/
  negated : Bool
  /-- The function that is called, if the parenthesis opens its argument. -/
  call : Option String

/-- The atom that a parenthesis closes around an expression. -/
def Enclosure.close (e : Enclosure) (inner : Expr Float) : Expr Float :=
  match e.call with
  | none => inner
  | some name => .call name inner

/-- What may be added to the atom that was read last. -/
inductive AtomTail where
  | name (function : String)
  | marks
  | nothing

/-- Where the reader stands within a clause. -/
inductive Phase where
  | operand (negated : Bool)
  | atom (negated : Bool) (tree : Expr Float) (tail : AtomTail)

/-- The factor that an atom is, with its sign. -/
def signedFactor (negated : Bool) (tree : Expr Float) : Expr Float :=
  if negated then .neg tree else tree

/-- A fault and the offset of the token that shows it; at the end of the input there is none. -/
structure ReadFault where
  fault : ParseFault
  /-- The place, or nothing at the end of the input. -/
  offset : Option Nat

/-- What has been read of a statement. -/
structure Reader where
  /-- The targets of the assignments, the last first. -/
  targets : List (Expr Float) := []
  /-- Where the current clause starts, once a token of it has been read. -/
  start : Option Nat := none
  /-- The open parentheses, the innermost first. -/
  enclosures : List Enclosure := []
  pending : Pending := {}
  /-- What was read last. -/
  phase : Phase := .operand false

namespace Reader

/-- The binary operator of a lexeme. -/
def operator? : Lexeme → Option Operator
  | .plus => some .add
  | .minus => some .sub
  | .star => some .mul
  | .slash => some .div
  | .caret => some .pow
  | _ => none

/-- Opens a parenthesis. -/
def enter (r : Reader) (negated : Bool) (call : Option String) : Reader :=
  { r with
    enclosures := ⟨r.pending, negated, call⟩ :: r.enclosures
    pending := {}
    phase := .operand false }

/-- Reads a token where an operand has to follow.  A sign and a literal become a negative
literal; the literal zero takes no sign. -/
def readOperand (r : Reader) (negated : Bool) (lexeme : Lexeme) : Except ParseFault Reader :=
  match lexeme with
  | .number x =>
    if !negated then .ok { r with phase := .atom false (.number x) .nothing }
    else if x == 0.0 then .error .negatedZero
    else .ok { r with phase := .atom false (.number (-x)) .nothing }
  | .identifier name =>
    match Constant.ofName? name with
    | some c => .ok { r with phase := .atom negated (.constant c) .nothing }
    | none => .ok { r with phase := .atom negated (.symbol name) (.name name) }
  | .openParen => .ok (r.enter negated none)
  | .minus =>
    if negated then .error .repeatedSign else .ok { r with phase := .operand true }
  | _ => .error .unexpectedToken

/-- Ends the sum that is being read where neither an operand nor an operator goes on: at a
closing parenthesis, or at the sign of an assignment outside all parentheses. -/
def readBoundary (r : Reader) (sum : Expr Float) (lexeme : Lexeme) :
    Except ParseFault Reader :=
  match r.enclosures, lexeme with
  | e :: outer, .closeParen =>
    .ok { r with
      enclosures := outer
      pending := e.pending
      phase := .atom e.negated (e.close sum) .nothing }
  | [], .equals =>
    if sum.isTarget then .ok { targets := sum :: r.targets } else .error .invalidTarget
  | _ :: _, _ => .error .missingParenthesis
  | [], _ => .error .unexpectedToken

/-- Reads a token behind an atom. -/
def readAfterAtom (r : Reader) (negated : Bool) (tree : Expr Float) (tail : AtomTail)
    (lexeme : Lexeme) : Except ParseFault Reader :=
  match tail, lexeme with
  | .name _, .apostrophe | .marks, .apostrophe =>
    .ok { r with phase := .atom negated (.marker tree) .marks }
  | .name function, .openParen => .ok (r.enter negated (some function))
  | _, _ =>
    let factor := signedFactor negated tree
    match operator? lexeme with
    | some op => .ok { r with pending := r.pending.extend factor op, phase := .operand false }
    | none => r.readBoundary (r.pending.closeSum factor) lexeme

/-- Reads one lexeme. -/
def readLexeme (r : Reader) (lexeme : Lexeme) : Except ParseFault Reader :=
  match r.phase with
  | .operand negated => r.readOperand negated lexeme
  | .atom negated tree tail => r.readAfterAtom negated tree tail lexeme

/-- Where a fault at a token is reported: at the token, but for a wrong target at the start of
its clause. -/
def faultOffset (r : Reader) (fault : ParseFault) (t : Token) : Nat :=
  if fault = .invalidTarget then r.start.getD t.offset else t.offset

/-- Notes where the clause starts. -/
def begin (r : Reader) (t : Token) : Reader :=
  { r with start := some (r.start.getD t.offset) }

/-- Reads one token. -/
def read (r : Reader) (t : Token) : Except ReadFault Reader :=
  match (r.begin t).readLexeme t.lexeme with
  | .ok r => .ok r
  | .error fault => .error ⟨fault, some (r.faultOffset fault t)⟩

/-- The statement with these targets, the last first, and this value. -/
def assemble (targets : List (Expr Float)) (value : Expr Float) : Statement Float :=
  match targets with
  | [] => .expression value
  | [target] => .assignment target value
  | target :: outer => assemble outer (.assign target value)

/-- The statement that has been read when the input ends. -/
def finish (r : Reader) : Except ReadFault (Statement Float) :=
  match r.phase, r.enclosures with
  | .operand _, _ => .error ⟨.unexpectedToken, none⟩
  | .atom _ _ _, _ :: _ => .error ⟨.missingParenthesis, none⟩
  | .atom negated tree _, [] =>
    .ok (assemble r.targets (r.pending.closeSum (signedFactor negated tree)))

/-- Reads the rest of the tokens. -/
def run (r : Reader) (tokens : List Token) : Except ReadFault (Statement Float) :=
  match tokens with
  | [] => r.finish
  | t :: rest =>
    match r.read t with
    | .ok r => r.run rest
    | .error fault => .error fault

end Reader

/-- The statement that a row of tokens forms. -/
def Statement.ofTokens (tokens : List Token) : Except ReadFault (Statement Float) :=
  Reader.run {} tokens

/-! ## From text to statements

A source text is cut into tokens and the tokens are read as one statement.  Faults that the
reader finds are reported with the text from the place of the fault on.
-/

/-- The error that reports a fault found in a text. -/
def ReadFault.toError (f : ReadFault) (source : String) : ParseError :=
  match f.offset with
  | none => ⟨f.fault, true, []⟩
  | some offset => ⟨f.fault, false, dropBytes offset source.toList⟩

/-- The statement that a text forms. -/
def Statement.parse (source : String) : Except ParseError (Statement Float) := do
  let tokens ← Token.read source
  if tokens.isEmpty then throw ⟨.emptyExpression, false, Text.trimmed source.toList⟩
  (Statement.ofTokens tokens).mapError fun fault => fault.toError source

/-- The expression that a text forms; an assignment is refused. -/
def Expr.parse (source : String) : Except ParseError (Expr Float) := do
  match ← Statement.parse source with
  | .expression e => return e
  | .assignment _ _ => throw ⟨.unexpectedAssignment, false, Text.trimmed source.toList⟩

end Fluxion
