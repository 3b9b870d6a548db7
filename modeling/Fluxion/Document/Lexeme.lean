import Fluxion.Document.Number

/-!
# Lexemes of a document

From the text of a document to the row of its lexemes, quoted texts among them.
-/

set_option autoImplicit false

namespace Fluxion.Document

/-! ## Quoted texts

A text stands between quotation marks or between apostrophes, one of them on each side or three.
Between three marks it may have several lines, and a line break behind the opening marks does
not belong to it.  Only between quotation marks does a backslash have a meaning: it marks a
character that is written by a letter or by its code point, and between three marks it takes
away a line break with the blanks around it.

Reading a body gives the text and the number of characters that it and its closing marks take.
-/

/-- The marks around a text. -/
structure Delimiter where
  mark : Char
  /-- Whether there are three of them on each side. -/
  isTriple : Bool
deriving DecidableEq, Repr

namespace Delimiter

/-- The marks on one side. -/
def text (d : Delimiter) : List Char := List.replicate (if d.isTriple then 3 else 1) d.mark

/-- Whether a backslash has a meaning. -/
def escapes (d : Delimiter) : Bool := d.mark = '"'

/-- The marks with which a text begins, if it is quoted. -/
def ofText? (text : List Char) : Option Delimiter :=
  match text with
  | '"' :: '"' :: '"' :: _ => some ⟨'"', true⟩
  | '"' :: _ => some ⟨'"', false⟩
  | '\x27' :: '\x27' :: '\x27' :: _ => some ⟨'\x27', true⟩
  | '\x27' :: _ => some ⟨'\x27', false⟩
  | _ => none

end Delimiter

/-- Whether a character is a space or a tab. -/
def isSpace (c : Char) : Bool := c = ' ' || c = '\t'

/-- Whether a character may not stand in a document as itself: a control other than the tab. -/
def isForbidden (c : Char) : Bool := (c.toNat < 0x20 && c ≠ '\t') || c = '\x7f'

/-- The number of characters of a line break at the front of a text, zero if there is none. -/
def lineBreak : List Char → Nat
  | '\n' :: _ => 1
  | '\r' :: '\n' :: _ => 2
  | _ => 0

/-- The number of blanks and line breaks at the front of a text. -/
def skipLines : List Char → Nat
  | '\n' :: rest => skipLines rest + 1
  | '\r' :: '\n' :: rest => skipLines rest + 2
  | c :: rest => if isSpace c then skipLines rest + 1 else 0
  | [] => 0

/-- The character with the code point that exactly `count` hexadecimal digits name. -/
def codePoint? (count : Nat) (text : List Char) : Option Char := do
  let row := text.take count
  let digits ← row.mapM (digitValue? 16)
  let value := digits.foldl (fun value digit => 16 * value + digit) 0
  if row.length = count ∧ value.isValidChar then some (Char.ofNat value) else none

/-- The character that stands behind a backslash, and the number of characters it takes. -/
def escape? : List Char → Option (Char × Nat)
  | 'b' :: _ => some ('\x08', 1)
  | 't' :: _ => some ('\t', 1)
  | 'n' :: _ => some ('\n', 1)
  | 'f' :: _ => some ('\x0c', 1)
  | 'r' :: _ => some ('\r', 1)
  | 'e' :: _ => some ('\x1b', 1)
  | '"' :: _ => some ('"', 1)
  | '\\' :: _ => some ('\\', 1)
  | 'x' :: rest => (codePoint? 2 rest).map (·, 3)
  | 'u' :: rest => (codePoint? 4 rest).map (·, 5)
  | 'U' :: rest => (codePoint? 8 rest).map (·, 9)
  | _ => none

/-- The number of characters behind a backslash that takes away a line break: the blanks before
it, the break, and the blanks and breaks that follow. -/
def joinedLines (text : List Char) : Nat :=
  let blanks := text.takeWhile isSpace
  let rest := text.drop blanks.length
  if lineBreak rest = 0 then 0 else skipLines text

/-- The marks that belong to a text although they stand in front of three closing marks: two at
the most. -/
def extraMarks (d : Delimiter) (behind : List Char) : List Char :=
  if d.isTriple then (behind.take 2).takeWhile fun c => c = d.mark else []

/-- The characters that the next piece of a body stands for, and the number of written
characters behind its first: a line break, a character with a backslash, or any other. -/
def piece? (d : Delimiter) (c : Char) (rest : List Char) : Option (List Char × Nat) :=
  if c = '\\' ∧ d.escapes then
    let joined := if d.isTriple then joinedLines rest else 0
    if joined ≠ 0 then some ([], joined)
    else (escape? rest).map fun (escaped, width) => ([escaped], width)
  else
    let width := if d.isTriple then lineBreak (c :: rest) else 0
    if width ≠ 0 then some ((c :: rest).take width, width - 1)
    else if isForbidden c then none
    else some ([c], 0)

/-- The text up to its closing marks, and the number of characters it takes with them. -/
def body? (d : Delimiter) (text : List Char) : Option (List Char × Nat) :=
  match text with
  | [] => none
  | c :: rest =>
    if d.text.isPrefixOf (c :: rest) then
      let extra := extraMarks d ((c :: rest).drop d.text.length)
      some (extra, d.text.length + extra.length)
    else do
      let (piece, width) ← piece? d c rest
      let (tail, taken) ← body? d (rest.drop width)
      return (piece ++ tail, taken + width + 1)
termination_by text.length
decreasing_by
  simp only [List.length_cons, List.length_drop]
  omega

/-- A quoted text behind its opening marks, and the number of characters it takes up to the end
of the closing marks. -/
def quotation? (d : Delimiter) (text : List Char) : Option (List Char × Nat) := do
  let width := if d.isTriple then lineBreak text else 0
  let (value, taken) ← body? d (text.drop width)
  return (value, taken + width)

/-! ## Words, marks and line breaks

A written document is a row of words, quoted texts, punctuation marks, blanks and line breaks.
Comments end with their line and leave nothing behind.  A word is as long as it can be: it ends
before a blank, a line break, a comment, a punctuation mark or a quotation.
-/

/-- A smallest part of a written document. -/
inductive Lexeme where
  | blank
  | lineBreak
  | point
  | equals
  | comma
  | openBracket
  | closeBracket
  | openBrace
  | closeBrace
  | word (characters : List Char)
  | quotation (text : List Char) (isTriple : Bool)
deriving DecidableEq, Repr

/-- The punctuation mark that a character is. -/
def Lexeme.ofChar? : Char → Option Lexeme
  | '.' => some .point
  | '=' => some .equals
  | ',' => some .comma
  | '[' => some .openBracket
  | ']' => some .closeBracket
  | '\x7b' => some .openBrace
  | '\x7d' => some .closeBrace
  | _ => none

/-- Whether a word may go on with a character. -/
def isWordPart (c : Char) : Bool :=
  !(isSpace c || isForbidden c || c = '#' || c = '"' || c = '\x27' ||
    (Lexeme.ofChar? c).isSome)

/-- The first lexeme of a text that begins with `c`, if one is there and not a comment only, and
the number of characters behind `c` that it takes. -/
def Lexeme.scan? (c : Char) (rest : List Char) : Option (Option Lexeme × Nat) :=
  let text := c :: rest
  if isSpace c then some (some .blank, (rest.takeWhile isSpace).length)
  else if Document.lineBreak text ≠ 0 then some (some .lineBreak, Document.lineBreak text - 1)
  else if c = '#' then
    let comment := rest.takeWhile fun c => !isForbidden c
    let behind := rest.drop comment.length
    if behind = [] ∨ Document.lineBreak behind ≠ 0 then some (none, comment.length) else none
  else
    match Lexeme.ofChar? c, Delimiter.ofText? text with
    | some lexeme, _ => some (some lexeme, 0)
    | none, some d => do
      let width := d.text.length - 1
      let (value, taken) ← quotation? d (rest.drop width)
      return (some (.quotation value d.isTriple), width + taken)
    | none, none =>
      if isForbidden c then none
      else
        let tail := rest.takeWhile isWordPart
        some (some (.word (c :: tail)), tail.length)

/-- The lexemes of a text. -/
def Lexeme.readAll? (text : List Char) : Option (List Lexeme) :=
  match text with
  | [] => some []
  | c :: rest => do
    let (lexeme, width) ← Lexeme.scan? c rest
    let others ← Lexeme.readAll? (rest.drop width)
    return lexeme.toList ++ others
termination_by text.length
decreasing_by
  simp only [List.length_cons, List.length_drop]
  omega

end Fluxion.Document
