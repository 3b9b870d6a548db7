import Fluxion.Document.Lexeme
import Fluxion.Document.Table

/-!
# Reading a document

The reader goes through the lexemes once, from left to right.  After each of them it knows the
tables that the lines so far have made, the way to the table that the current line fills, the
lists and tables in brackets and braces that are open, and what was read last.

A line holds a header, or a name and a value, or nothing.  Blanks may stand between all parts of
a line; line breaks only within the brackets of a list and the braces of a table, and there not
within a dotted name.  A comma may follow the last item.

A dotted name has at most eighty parts, and at most eighty lists and tables are open at once.
-/

set_option autoImplicit false

namespace Fluxion.Document

/-- A value that is being read, from the outside in. -/
inductive Frame where
  | line (path : List String) (name : String)
  /-- A list, with the items so far, the last first. -/
  | list (items : List Document)
  | table (inner : Document)
  | entry (path : List String) (name : String)

/-- What a name that is being read is for. -/
inductive NameUse where
  | line
  | entry
  | header
  | item
deriving DecidableEq, Repr

/-- What was read last. -/
inductive Phase where
  | lineStart
  | lineEnd
  | bracket
  /-- A point, or nothing yet, of a dotted name; the names so far, the last first. -/
  | part (use : NameUse) (names : List String)
  /-- A part of a dotted name; the names so far, the last first. -/
  | name (use : NameUse) (path : List String) (name : String)
  | endedName (path : List String) (name : String)
  /-- The first of the brackets that close a header in two brackets. -/
  | closing (path : List String) (name : String)
  | value
  | word (characters : List Char)
  | item
  | afterItem
deriving DecidableEq, Repr

/-- What has been read of a document. -/
structure Reader where
  root : Document := .table .header []
  header : List String := []
  /-- The values that are being read, the innermost first. -/
  frames : List Frame := []
  /-- What was read last. -/
  phase : Phase := .lineStart

namespace Reader

/-- The most lists and tables that may be open at once, and the most parts of a dotted name. -/
def nestingLimit : Nat := 80

/-- Whether a character may stand in a name without marks around it. -/
def isNamePart (c : Char) : Bool := c.isAlphanum || c = '_' || c = '-'

/-- The part of a dotted name that a lexeme is. -/
def namePart? : Lexeme → Option String
  | .word characters => if characters.all isNamePart then some (String.ofList characters) else none
  | .quotation characters false => some (String.ofList characters)
  | _ => none

/-- Takes a value that is complete, and goes on with what it is part of. -/
def complete? (r : Reader) (value : Document) : Option Reader :=
  match r.frames with
  | .line path name :: outer => do
    let root ← follow? .header (assign? path name value) r.header r.root
    return { r with root := root, frames := outer, phase := .lineEnd }
  | .list items :: outer =>
    some { r with frames := .list (value :: items) :: outer, phase := .afterItem }
  | .entry path name :: .table inner :: outer => do
    let inner ← assign? path name value inner
    return { r with frames := .table inner :: outer, phase := .afterItem }
  | _ => none

/-- Opens a list or a table. -/
def enter? (r : Reader) (frame : Frame) : Option Reader :=
  let isNested : Frame → Bool
    | .list _ | .table _ => true
    | .line _ _ | .entry _ _ => false
  if r.frames.countP isNested < nestingLimit then
    some { r with frames := frame :: r.frames, phase := .item }
  else none

/-- Reads the first lexeme of a value. -/
def beginValue? (r : Reader) : Lexeme → Option Reader
  | .openBracket => r.enter? (.list [])
  | .openBrace => r.enter? (.table (.table .inline []))
  | .quotation characters _ => r.complete? (.text (String.ofList characters))
  | .word characters => some { r with phase := .word characters }
  | _ => none

/-- Reads a part of a dotted name. -/
def readPart? (r : Reader) (use : NameUse) (names : List String) (lexeme : Lexeme) :
    Option Reader := do
  let name ← namePart? lexeme
  if names.length < nestingLimit then return { r with phase := .name use names.reverse name }
  else none

/-- Reads what ends a dotted name. -/
def endName? (r : Reader) (use : NameUse) (path : List String) (name : String)
    (lexeme : Lexeme) : Option Reader :=
  match use, lexeme with
  | .line, .equals => some { r with frames := [.line path name], phase := .value }
  | .entry, .equals => some { r with frames := .entry path name :: r.frames, phase := .value }
  | .header, .closeBracket => do
    let root ← openTable? path name r.root
    return { r with root := root, header := path ++ [name], phase := .lineEnd }
  | .item, .closeBracket => some { r with phase := .closing path name }
  | _, _ => none

/-- Passes over a line break between the sign and the value, where the value is an entry's. -/
def breakBeforeValue? (r : Reader) : Option Reader :=
  match r.frames with
  | .entry _ _ :: _ => some r
  | _ => none

/-- Closes the innermost list or table. -/
def close? (r : Reader) (lexeme : Lexeme) : Option Reader :=
  match r.frames, lexeme with
  | .list items :: outer, .closeBracket =>
    { r with frames := outer }.complete? (.list items.reverse)
  | .table inner :: outer, .closeBrace => { r with frames := outer }.complete? inner
  | _, _ => none

/-- Reads a lexeme where an item or entry may begin, or the list or table may end. -/
def readItem? (r : Reader) (lexeme : Lexeme) : Option Reader :=
  match r.frames, lexeme with
  | _, .blank | _, .lineBreak => some r
  | _, .closeBracket | _, .closeBrace => r.close? lexeme
  | .list _ :: _, _ => r.beginValue? lexeme
  | .table _ :: _, _ => r.readPart? .entry [] lexeme
  | _, _ => none

/-- Reads a lexeme behind an item or entry, or behind the value of a line. -/
def readAfterValue? (r : Reader) (lexeme : Lexeme) : Option Reader :=
  match r.phase, lexeme with
  | .lineEnd, .blank => some r
  | .lineEnd, .lineBreak => some { r with phase := .lineStart }
  | .afterItem, .blank | .afterItem, .lineBreak => some r
  | .afterItem, .comma => some { r with phase := .item }
  | .afterItem, .closeBracket | .afterItem, .closeBrace => r.close? lexeme
  | _, _ => none

/-- Reads one lexeme. -/
def read? (r : Reader) (lexeme : Lexeme) : Option Reader :=
  match r.phase, lexeme with
  | .lineStart, .blank | .lineStart, .lineBreak => some r
  | .lineStart, .openBracket => some { r with phase := .bracket }
  | .lineStart, _ => r.readPart? .line [] lexeme
  | .bracket, .openBracket => some { r with phase := .part .item [] }
  | .bracket, .blank => some { r with phase := .part .header [] }
  | .bracket, _ => r.readPart? .header [] lexeme
  | .part _ _, .blank => some r
  | .part use names, _ => r.readPart? use names lexeme
  | .name _ _ _, .blank => some r
  | .name use path name, .point => some { r with phase := .part use (name :: path.reverse) }
  | .name .entry path name, .lineBreak => some { r with phase := .endedName path name }
  | .name use path name, _ => r.endName? use path name lexeme
  | .endedName _ _, .blank | .endedName _ _, .lineBreak => some r
  | .endedName path name, _ => r.endName? .entry path name lexeme
  | .closing path name, .closeBracket => do
    let root ← openItem? path name r.root
    return { r with root := root, header := path ++ [name], phase := .lineEnd }
  | .closing _ _, _ => none
  | .value, .blank => some r
  | .value, .lineBreak => r.breakBeforeValue?
  | .value, _ => r.beginValue? lexeme
  | .word characters, .word more => some { r with phase := .word (characters ++ more) }
  | .word characters, .point => some { r with phase := .word (characters ++ ['.']) }
  | .word characters, _ => do
    let value ← ofWord? characters
    let r ← r.complete? value
    r.readAfterValue? lexeme
  | .item, _ => r.readItem? lexeme
  | .afterItem, _ | .lineEnd, _ => r.readAfterValue? lexeme

/-- The document, once all lexemes have been read. -/
def finish? (r : Reader) : Option Document :=
  match r.phase with
  | .lineStart | .lineEnd => some r.root
  | .word characters => do
    let value ← ofWord? characters
    let r ← r.complete? value
    if r.phase = .lineEnd then return r.root else none
  | _ => none

/-- Reads the rest of the lexemes. -/
def run? (r : Reader) : List Lexeme → Option Document
  | [] => r.finish?
  | lexeme :: rest => do
    let r ← r.read? lexeme
    r.run? rest

end Reader

/-- The document that a text in TOML holds.  A byte order mark in front of it is passed over. -/
def parse? (source : String) : Option Document := do
  let text := match source.toList with
    | '\uFEFF' :: rest => rest
    | whole => whole
  let lexemes ← Lexeme.readAll? text
  Reader.run? {} lexemes

end Fluxion.Document
