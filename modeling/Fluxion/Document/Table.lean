/-!
# Documents

A document as a tree, and the rules by which it grows while its text is read.
-/

set_option autoImplicit false

namespace Fluxion

/-! ## The tree of a document

A configuration document is a table: names, each with a text, a number, a truth value, a list or
a table of its own.  The same type holds a document that was read from TOML and one that was
handed over as data; only the first kind can hold a number that is too large to be read, and only
the second can hold an explicit nothing.

A table remembers how it came about, because that decides what may still be added to it.
-/

/-- How a table came about. -/
inductive TableOrigin where
  | inline
  | header
  | implied
  | dotted
deriving DecidableEq, Repr

/-- A value of a document. -/
inductive Document where
  | text (value : String)
  | integer (value : Int)
  | real (value : Float)
  | boolean (value : Bool)
  | nothing
  | unreadable
  | list (items : List Document)
  | series (tables : List Document)
  | table (origin : TableOrigin) (entries : List (String × Document))
deriving Repr

namespace Document

/-- The entries of a table, with the value of one name put in or replaced. -/
def put (entries : List (String × Document)) (name : String) (value : Document) :
    List (String × Document) :=
  match entries with
  | [] => [(name, value)]
  | entry :: rest =>
    if entry.1 = name then (name, value) :: rest else entry :: put rest name value

mutual

/-- Whether every number of a value can be read. -/
def isReadable : Document → Bool
  | .unreadable => false
  | .list items => areReadable items
  | .series tables => areReadable tables
  | .table _ entries => entriesAreReadable entries
  | .text _ | .integer _ | .real _ | .boolean _ | .nothing => true

/-- Whether every number of the items can be read. -/
def areReadable : List Document → Bool
  | [] => true
  | item :: rest => item.isReadable && areReadable rest

/-- Whether every number of the entries can be read. -/
def entriesAreReadable : List (String × Document) → Bool
  | [] => true
  | entry :: rest => entry.2.isReadable && entriesAreReadable rest

end

end Document

end Fluxion

namespace Fluxion.Document

/-! ## Growing tables

A document grows line by line.  A header opens a table, a header in two brackets adds a table to
a series, and a line with a name and a value puts the value into the table that was opened last.
Names may be dotted, and the tables on their way are made if they are not there.

No value is ever replaced, and no table is opened twice.  A table in braces is complete.  A
header may still open a table that was only implied by other headers; a dotted name may only add
to tables that dotted names have made, although it may pass through implied ones.  A way through
a series leads into its last table.
-/

/-- What leads into a table. -/
inductive Way where
  | header
  /-- The names before the last one of a dotted name. -/
  | dotted
deriving DecidableEq, Repr

/-- The origin of a table that is made on the way. -/
def Way.origin : Way → TableOrigin
  | .header => .implied
  | .dotted => .dotted

/-- Whether the way may lead through a table of an origin. -/
def Way.passes : Way → TableOrigin → Bool
  | _, .inline => false
  | .header, _ => true
  | .dotted, .header => false
  | .dotted, _ => true

/-- Changes the table at the end of a way; there is none if the way is blocked or the change is
refused. -/
def follow? (way : Way) (change : Document → Option Document) :
    List String → Document → Option Document
  | [], d => change d
  | name :: path, .table origin entries => do
    let value ← match entries.lookup name with
      | none => follow? way change path (.table way.origin [])
      | some (.table inner fields) =>
        if way.passes inner then follow? way change path (.table inner fields) else none
      | some (.series tables) =>
        match tables.getLast? with
        | none => none
        | some last =>
          (follow? way change path last).map fun changed => .series (tables.dropLast ++ [changed])
      | some _ => none
    return .table origin (put entries name value)
  | _ :: _, _ => none

/-- Puts a value under a name that the table does not have. -/
def insertNew? (name : String) (value : Document) : Document → Option Document
  | .table origin entries =>
    if (entries.lookup name).isSome then none
    else some (.table origin (entries ++ [(name, value)]))
  | _ => none

/-- Puts a value into a table under a name, which is dotted if its way is not empty.  A dotted
name has to end in a table that dotted names have made. -/
def assign? (path : List String) (name : String) (value : Document) (table : Document) :
    Option Document :=
  let insert : Document → Option Document
    | .table origin entries =>
      if path = [] ∨ origin = .dotted then insertNew? name value (.table origin entries) else none
    | _ => none
  follow? .dotted insert path table

/-- Opens a table by a header: it is new, or other headers have implied it. -/
def openTable? (path : List String) (name : String) (root : Document) : Option Document :=
  let change : Document → Option Document
    | .table origin entries =>
      match entries.lookup name with
      | none => insertNew? name (.table .header []) (.table origin entries)
      | some (.table .implied inner) =>
        some (.table origin (put entries name (.table .header inner)))
      | some _ => none
    | _ => none
  follow? .header change path root

/-- Adds a table to a series, which is made if there is none under that name. -/
def openItem? (path : List String) (name : String) (root : Document) : Option Document :=
  let change : Document → Option Document
    | .table origin entries =>
      match entries.lookup name with
      | none => insertNew? name (.series [.table .header []]) (.table origin entries)
      | some (.series tables) =>
        some (.table origin (put entries name (.series (tables ++ [.table .header []]))))
      | some _ => none
    | _ => none
  follow? .header change path root

end Fluxion.Document
