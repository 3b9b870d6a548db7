import Fluxion.Statement

/-!
# The grammar of statements

The grammar is given by its derivations.  A phrase of a level is a derivation of that level: a
sum is a product or a sum, an operator and a product, so operators of one level group to the
left; a product is made of powers and a power of factors in the same way.  A factor is a literal
or an atom, with or without a sign; the sign of a literal is part of the number, and the literal
zero takes none.  An atom is a sum in parentheses, a constant, which takes neither an argument
nor a marker, a variable with its markers, or a call.

A sentence derives a whole statement: a sum, or a target, the sign of assignment and a sentence,
so assignments nest to the right.  A target is a sum whose tree is a variable under markers.

Every derivation has the row of lexemes that it derives and the tree that it stands for.  Nothing
here mentions the reader.
-/

set_option autoImplicit false

namespace Fluxion

/-- The three levels of binary operators, from the loosest binding to the tightest. -/
inductive Rank where
  | sum
  | product
  | power
deriving DecidableEq, Repr

/-- The level that an operator belongs to. -/
def Operator.rank : Operator → Rank
  | .add | .sub => .sum
  | .mul | .div => .product
  | .pow => .power

/-- The lexeme of an operator. -/
def Operator.lexeme : Operator → Lexeme
  | .add => .plus
  | .sub => .minus
  | .mul => .star
  | .div => .slash
  | .pow => .caret

/-- The levels of the grammar. -/
inductive Level where
  | chain (rank : Rank)
  | factor
  | atom

/-- The level of the operands of a rank, the next tighter one. -/
def Rank.operand : Rank → Level
  | .sum => .chain .product
  | .product => .chain .power
  | .power => .factor

/-- The derivations of each level. -/
inductive Phrase : Level → Type where
  | group (inner : Phrase (.chain .sum)) : Phrase .atom
  | constant (c : Constant) : Phrase .atom
  | symbol (name : String) (h : Constant.ofName? name = none) (marks : Nat) : Phrase .atom
  | call (name : String) (h : Constant.ofName? name = none) (argument : Phrase (.chain .sum)) :
    Phrase .atom
  | literal (value : Float) : Phrase .factor
  | negativeLiteral (value : Float) (h : (value == 0.0) = false) : Phrase .factor
  | plain (inner : Phrase .atom) : Phrase .factor
  | negative (inner : Phrase .atom) : Phrase .factor
  | single {k : Rank} (operand : Phrase k.operand) : Phrase (.chain k)
  | binary {k : Rank} (left : Phrase (.chain k)) (op : Operator) (h : op.rank = k)
    (right : Phrase k.operand) : Phrase (.chain k)

/-- A variable under a number of markers. -/
def Expr.marked (name : String) : Nat → Expr Float
  | 0 => .symbol name
  | marks + 1 => .marker (Expr.marked name marks)

namespace Phrase

/-- The lexemes that a phrase derives. -/
def lexemes {l : Level} : Phrase l → List Lexeme
  | .group inner => .openParen :: (inner.lexemes ++ [.closeParen])
  | .constant c => [.identifier c.name]
  | .symbol name _ marks => .identifier name :: List.replicate marks .apostrophe
  | .call name _ argument => .identifier name :: .openParen :: (argument.lexemes ++ [.closeParen])
  | .literal value => [.number value]
  | .negativeLiteral value _ => [.minus, .number value]
  | .plain inner => inner.lexemes
  | .negative inner => .minus :: inner.lexemes
  | .single operand => operand.lexemes
  | .binary left op _ right => left.lexemes ++ op.lexeme :: right.lexemes

-- the equations are made here once, and not by every proof that asks for them first
attribute [grind =] lexemes

/-- The tree that a phrase stands for. -/
def tree {l : Level} : Phrase l → Expr Float
  | .group inner => inner.tree
  | .constant c => .constant c
  | .symbol name _ marks => Expr.marked name marks
  | .call name _ argument => .call name argument.tree
  | .literal value => .number value
  | .negativeLiteral value _ => .number (-value)
  | .plain inner => inner.tree
  | .negative inner => .neg inner.tree
  | .single operand => operand.tree
  | .binary left op _ right => .binary op left.tree right.tree

end Phrase

/-- The derivations of a statement. -/
inductive Sentence where
  | value (sum : Phrase (.chain .sum))
  | assign (target : Phrase (.chain .sum)) (h : target.tree.isTarget = true) (rest : Sentence)

namespace Sentence

/-- The lexemes that a sentence derives. -/
def lexemes : Sentence → List Lexeme
  | .value sum => sum.lexemes
  | .assign target _ rest => target.lexemes ++ .equals :: rest.lexemes

/-- The tree of what stands to the right of a sign of assignment. -/
def tree : Sentence → Expr Float
  | .value sum => sum.tree
  | .assign target _ rest => .assign target.tree rest.tree

/-- The statement that a sentence stands for. -/
def statement : Sentence → Statement Float
  | .value sum => .expression sum.tree
  | .assign target _ rest => .assignment target.tree rest.tree

end Sentence

/-- A name is that of a constant exactly if the constant is so called. -/
theorem Constant.ofName?_eq_some_iff (name : String) (c : Constant) :
    Constant.ofName? name = some c ↔ name = c.name := by
  unfold Constant.ofName?
  cases c with
  | pi =>
    by_cases hpi : name = "pi"
    · simp [hpi, Constant.name]
    · by_cases he : name = "e" <;> simp [hpi, he, Constant.name]
  | euler =>
    by_cases hpi : name = "pi"
    · simp [hpi, Constant.name]
    · by_cases he : name = "e" <;> simp [hpi, he, Constant.name]

/-- A constant is found under its name. -/
theorem Constant.ofName?_name (c : Constant) : Constant.ofName? c.name = some c :=
  (Constant.ofName?_eq_some_iff c.name c).mpr rfl

/-- Different constants have different names. -/
theorem Constant.name_injective (c d : Constant) (h : c.name = d.name) : c = d := by
  have hc := Constant.ofName?_name c
  rw [h, Constant.ofName?_name d] at hc
  exact (Option.some.inj hc).symm

/-- Different operators have different lexemes. -/
theorem Operator.lexeme_injective (op other : Operator) (h : op.lexeme = other.lexeme) :
    op = other := by
  cases op <;> cases other <;> first | rfl | simp [Operator.lexeme] at h

end Fluxion
